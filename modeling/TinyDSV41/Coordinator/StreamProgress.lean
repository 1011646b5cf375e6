/-
**When the semaphores and the reservations of a stream wait on each other.**

An `execute` of a group without wave hooks takes a worker slot and then waits for capacity; a wave is
charged first and its plans then wait for worker slots. The two orders meet when plans that wait for
capacity hold every worker slot and what they wait for is reserved by waves that cannot start. That is
the only cycle: as long as no plan goes to wait in the last slot in such a state (`mindful`), every
outstanding group has an enabled step and, the waves and plans being finite, returns.

* `attentive_step` — a waiter that has not been notified has nothing to do.
* `Call.quiet`, `enabled_iff` — a stream has no enabled step exactly if each of its calls is quiet.
* `stream_progress` — no mindful run gets stuck, and none goes on for ever without new calls.
-/

import TinyDSV41.Coordinator.StreamAccounting
import Mathlib.Algebra.Order.Group.Nat

namespace TinyDSV41.Coordinator

open List Lib Call Bool Cells Ledger EpisodeResult System.Leads
open Job (result?)

/-! ### Runs without failures -/

/-- A step of a coroutine, a hook or a backend; the other actions bring new calls or disturb. -/
def StreamAction.internal : StreamAction → Bool
  | .advance _ | .hook _ _ | .work _ _ | .complete _ _ _ => true
  | _ => false

variable (job : Job)

def Job.asleep (job : Job) : Bool :=
  match job.state with
  | .reserving false => true
  | _ => false

variable (call : Call)

/-- A call with a wave whose plans have all finished, so that it is about to be settled. -/
def Call.releasing (call : Call) : Bool :=
  match call.phase with
  | .finishing _ => true
  | .running _ => call.gathered
  | _ => false

def HookOutcome.returns : HookOutcome → Bool
  | .returned _ => true
  | _ => false

namespace Stream

/-- Every result is safe, no hook raises, and nobody cancels or pauses. -/
def calm (stream : Stream) : StreamAction → Prop
  | .complete number position outcome =>
    ∀ call ∈ stream.calls[number]?, ∀ job ∈ call.jobs[position]?,
      (execute job.ticket.plan outcome).safe = true
  | .hook _ outcome => outcome.returns = true
  | .interrupt _ | .cancel _ | .pause | .resume | .close => False
  | .submit _ _ | .advance _ | .work _ _ => True

def asleep (stream : Stream) : ℕ :=
  (stream.calls.map fun call => call.jobs.countP Job.asleep).sum

def releasing (stream : Stream) : Bool := stream.calls.any Call.releasing

/-- A plan without a wave is about to wait for capacity in the last worker slot: plans that wait on
the condition hold all the others, and no wave is about to be settled. -/
def closesCycle (settings : Settings) (stream : Stream) (number position : ℕ) : Prop :=
  ∃ call ∈ stream.calls[number]?, ∃ job ∈ call.jobs[position]?,
    stream.token.cancelled = false ∧ call.owned = false ∧
    settings.fits stream.ledger.reserved job.ticket.plan.task.resources = false ∧
    stream.asleep + 1 = settings.maxWorkers ∧ stream.releasing = false

/-- The calm steps that close no cycle. -/
def mindful (settings : Settings) (stream : Stream) : StreamAction → Prop
  | .work number position => ¬ stream.closesCycle settings number position
  | action => stream.calm action

instance decidableCalm (stream : Stream) (action : StreamAction) : Decidable (stream.calm action) :=
  match action with
  | .complete number position outcome => inferInstanceAs (Decidable
      (∀ call ∈ stream.calls[number]?, ∀ job ∈ call.jobs[position]?,
        (execute job.ticket.plan outcome).safe = true))
  | .hook _ outcome => inferInstanceAs (Decidable (outcome.returns = true))
  | .interrupt _ | .cancel _ | .pause | .resume | .close => isFalse id
  | .submit _ _ | .advance _ | .work _ _ => isTrue trivial

instance decidableMindful (settings : Settings) (stream : Stream) (action : StreamAction) :
    Decidable (stream.mindful settings action) :=
  match action with
  | .work number position => inferInstanceAs (Decidable (¬ ∃ call ∈ stream.calls[number]?,
      ∃ job ∈ call.jobs[position]?, stream.token.cancelled = false ∧ call.owned = false ∧
        settings.fits stream.ledger.reserved job.ticket.plan.task.resources = false ∧
        stream.asleep + 1 = settings.maxWorkers ∧ stream.releasing = false))
  | .submit _ _ | .advance _ => isTrue trivial
  | .hook number outcome => decidableCalm stream (.hook number outcome)
  | .complete number position outcome => decidableCalm stream (.complete number position outcome)
  | .interrupt _ | .cancel _ | .pause | .resume | .close => isFalse id

theorem mindful_calm {settings : Settings} {stream : Stream} {action : StreamAction}
    (guard : stream.mindful settings action) : stream.calm action := by
  cases action with
  | work number position => exact trivial
  | _ => exact guard

/-! ### What a calm step can do -/

/-- A calm step brings a call, changes one call without taking anything back, or ends in a
`notify_all`. -/
inductive Effect (settings : Settings) (stream : Stream) (action : StreamAction) (next : Stream) :
    Prop
  | submitted {call : Call} (calls : next.calls = stream.calls ++ [call])
      (phase : call.phase = .queued) (jobs : call.jobs = []) (token : next.token = stream.token)
      (ledger : next.ledger = stream.ledger)
  | refused (calls : next.calls = stream.calls) (token : next.token = stream.token)
      (ledger : next.ledger = stream.ledger)
  | changed {number : ℕ} {call after : Call} (found : stream.calls[number]? = some call)
      (calls : next.calls = stream.calls.set number after) (token : next.token = stream.token)
      (grows : ∀ account, stream.ledger.reserved account ≤ next.ledger.reserved account)
      (lost : next.ledger.lost = stream.ledger.lost)
      (waits : after.jobs.countP Job.asleep = call.jobs.countP Job.asleep ∧
          (∀ job ∈ after.jobs, job.asleep = true → job ∈ call.jobs) ∨
        after.jobs.countP Job.asleep = call.jobs.countP Job.asleep + 1 ∧
          ∃ position job, action = .work number position ∧ call.jobs[position]? = some job ∧
            stream.token.cancelled = false ∧ call.owned = false ∧
            settings.fits stream.ledger.reserved job.ticket.plan.task.resources = false ∧
            ∀ other ∈ after.jobs, other.asleep = true → other ∈ call.jobs ∨ other.ticket = job.ticket)
      (wave : ∀ offset, after.phase = .reserving offset false → stream.token.cancelled = false ∧
        settings.waveFits next.ledger.reserved (plansOf (after.selected settings offset)) = false)
      (kept : call.releasing = true → after.releasing = true)
      (brought : after.releasing = true → call.releasing = true ∨ stream.token.cancelled = true)
  | notified {calls : List Call} (same : next.calls = calls.map notify)
      (lost : next.token.cancelled = false →
        stream.token.cancelled = false ∧ next.ledger.lost = stream.ledger.lost)
      (cause : (∃ call ∈ stream.calls, ∃ job ∈ call.jobs, job.state = .running) ∨ stream.releasing = true)

section Effects

variable {settings : Settings} {stream next : Stream} {number position offset : ℕ} {call : Call}
  {job : Job} {action : StreamAction}

theorem releasing_of_mem (mem : call ∈ stream.calls) (releasing : call.releasing = true) :
    stream.releasing = true := any_eq_true.mpr ⟨call, mem, releasing⟩

theorem reserved_chargeAll_le (tickets : List Ticket) (ledger : Ledger Ticket Account ℚ)
    (account : Account) :
    ledger.reserved account ≤ (tickets.foldl (charge Ticket.demand) ledger).reserved account := by
  rw [reserved_chargeAll]
  exact le_add_of_nonneg_right (total_nonneg
    (fun ticket => ticket.plan.task.resources.demand_nonneg) tickets account)

theorem effect_put {after : Call} (found : stream.calls[number]? = some call)
    (calls : next.calls = stream.calls.set number after) (token : next.token = stream.token)
    (grows : ∀ account, stream.ledger.reserved account ≤ next.ledger.reserved account)
    (lost : next.ledger.lost = stream.ledger.lost)
    (jobs : ∀ job ∈ after.jobs, job.asleep = true → job ∈ call.jobs)
    (counts : after.jobs.countP Job.asleep = call.jobs.countP Job.asleep)
    (wave : ∀ offset, after.phase = .reserving offset false → stream.token.cancelled = false ∧
      settings.waveFits next.ledger.reserved (plansOf (after.selected settings offset)) = false)
    (releases : after.releasing = call.releasing) : Effect settings stream action next :=
  .changed found calls token grows lost (Or.inl ⟨counts, jobs⟩) wave (fun before => releases ▸ before)
    (fun now => Or.inl (releases ▸ now))

section

variable (books : stream.Booked settings) (found : stream.calls[number]? = some call)
  (releases : call.releasing = false)
include books found releases

theorem effect_leave (outcome : Except String (List EpisodeResult)) :
    Effect settings stream action (stream.leave call outcome) :=
  effect_put found (books.put found _) rfl
    (fun _ => le_rfl) rfl (fun _ mem _ => mem) rfl (nofun)
    releases.symm

theorem effect_reserveWave : Effect settings stream action (stream.reserveWave settings call offset) := by
  unfold reserveWave
  by_cases cancelled : stream.token.cancelled = true
  · rw [if_pos cancelled]
    exact effect_put found (books.put found _) rfl (fun _ => le_rfl) rfl
      (fun _ mem _ => mem) rfl (nofun) releases.symm
  · rw [if_neg cancelled]
    by_cases fits : settings.waveFits stream.ledger.reserved
        (plansOf (call.selected settings offset)) = true
    · rw [if_pos fits]
      exact effect_put found (books.put found _) rfl
        (reserved_chargeAll_le _ _) (history_chargeAll _ _).2
        (fun _ mem _ => mem) rfl (nofun) releases.symm
    · rw [if_neg fits]
      refine effect_put found (books.put found _) rfl (fun _ => le_rfl) rfl
        (fun _ mem _ => mem) rfl ?_ releases.symm
      intro other phase
      cases phase
      exact ⟨eq_false_iff.mpr cancelled, eq_false_iff.mpr fits⟩

end

theorem effect_settleWave (inside : stream.releasing = true) (observed : List EpisodeResult)
    (closure : Option Mapping) :
    Effect settings stream action (stream.settleWave settings call offset observed closure) := by
  unfold settleWave
  by_cases safe : (observed.all safe && !requestUncertain closure) = true
  · simp only [safe, if_true]
    exact .notified rfl (fun live => ⟨live, (history_releaseAll _ _).2⟩) (Or.inr inside)
  · simp only [safe, false_eq_true, if_false]
    exact .notified rfl (nofun) (Or.inr inside)

theorem acquiring_awake (tickets : List Ticket) :
    (tickets.map fun ticket => (⟨ticket, .acquiring⟩ : Job)).countP Job.asleep = 0 ∧
      ∀ job ∈ tickets.map fun ticket => (⟨ticket, .acquiring⟩ : Job), job.asleep = false := by
  have awake : ∀ job ∈ tickets.map fun ticket => (⟨ticket, .acquiring⟩ : Job), job.asleep = false := by
    intro job mem
    obtain ⟨ticket, -, rfl⟩ := mem_map.mp mem
    rfl
  exact ⟨countP_eq_zero.mpr fun job mem => by simp [awake job mem], awake⟩

theorem not_releasing (sound : call.Sound settings) (there : call.jobs[position]? = some job)
    (busy : job.result? = none) : call.releasing = false := by
  have member := mem_of_getElem? there
  have all : call.gathered = false := by
    by_contra gathered
    rw [not_eq_false] at gathered
    have finished := all_eq_true.mp gathered job member
    rw [busy] at finished
    cases finished
  unfold Call.releasing
  rcases sound.working there busy with phase | ⟨_, phase⟩ <;> simp [phase, all]

section

variable (books : stream.Booked settings) (found : stream.calls[number]? = some call)
  (there : call.jobs[position]? = some job) (waits : job.waits = true) (awake : job.asleep = false)
include books found there waits awake

/-- A job that is not asleep moves on to a state that is not asleep either. -/
theorem effect_setJob (state : JobState) (still : (⟨job.ticket, state⟩ : Job).asleep = false)
    (open_ : (⟨job.ticket, state⟩ : Job).result? = none ∨ stream.token.cancelled = true) {after : Call}
    (calls : next.calls = stream.calls.set call.number after)
    (jobs : after.jobs = call.jobs.set position { job with state := state })
    (phase : after.phase = call.phase) (token : next.token = stream.token)
    (grows : ∀ account, stream.ledger.reserved account ≤ next.ledger.reserved account)
    (lost : next.ledger.lost = stream.ledger.lost) :
    Effect settings stream action next := by
  have sound := books.own found
  have busy : job.result? = none := by
    unfold Job.waits at waits
    unfold result?
    cases state : job.state <;> simp_all
  have working := sound.working there busy
  have before := not_releasing sound there busy
  rw [books.numbered number call found] at calls
  refine .changed found calls token grows lost (Or.inl ⟨?_, ?_⟩) ?_ ?_ ?_
  · have counts := countP_set Job.asleep there { job with state := state }
    rw [awake, still] at counts
    rw [jobs]
    simpa using counts
  · intro other mem sleeping
    rw [jobs] at mem
    rcases mem_set mem with rfl | old
    · rw [still] at sleeping
      cases sleeping
    · exact old
  · intro spot reserving
    rw [phase] at reserving
    rcases working with here | ⟨_, here⟩ <;> rw [here] at reserving <;> cases reserving
  · intro releasing
    rw [before] at releasing
    cases releasing
  · intro releasing
    rcases open_ with open_ | cancelled
    · unfold Call.releasing at releasing
      rw [phase] at releasing
      rcases working with here | ⟨_, here⟩ <;> simp only [here] at releasing
      · cases releasing
      · have inside : (⟨job.ticket, state⟩ : Job) ∈ after.jobs := by
          rw [jobs]
          exact mem_set (List.getElem?_eq_some_iff.mp there).1 _
        have finished := all_eq_true.mp releasing _ inside
        rw [open_] at finished
        cases finished
    · exact Or.inr cancelled

theorem effect_attempt (workers : ℕ) : Effect settings stream (.work number position)
      ({ stream with workers := workers }.attempt settings call position job) := by
  have sound := books.own found
  unfold attempt
  by_cases cancelled : stream.token.cancelled = true
  · rw [if_pos cancelled]
    exact effect_setJob books found there waits awake (.finished _) rfl (Or.inr cancelled)
      rfl rfl rfl rfl (fun _ => le_rfl) rfl
  · rw [if_neg cancelled]
    by_cases owned : call.owned = true
    · rw [if_pos owned]
      exact effect_setJob books found there waits awake .running rfl (Or.inl rfl) rfl rfl rfl rfl
        (fun _ => le_rfl) rfl
    · rw [if_neg owned]
      by_cases fits : settings.fits stream.ledger.reserved job.ticket.plan.task.resources = true
      · rw [if_pos fits]
        exact effect_setJob books found there waits awake .running rfl (Or.inl rfl) rfl rfl rfl rfl
          (reserved_chargeAll_le [job.ticket] stream.ledger) rfl
      · rw [if_neg fits]
        have busy : job.result? = none := by
          unfold Job.waits at waits
          unfold result?
          cases state : job.state <;> simp_all
        have before := not_releasing sound there busy
        have phase : call.phase = .collecting := by
          rcases sound.working there busy with phase | ⟨_, phase⟩
          · exact phase
          · simp [Call.owned, phase] at owned
        refine .changed found (books.put found _)
          rfl (fun _ => le_rfl) rfl (Or.inr ⟨?_, position, job, rfl, there,
            eq_false_iff.mpr cancelled, eq_false_iff.mpr owned,
            eq_false_iff.mpr fits, ?_⟩) ?_ ?_ ?_
        · have counts := countP_set Job.asleep there { job with state := .reserving false }
          rw [awake] at counts
          simpa [Job.asleep] using counts
        · intro other mem _
          rcases mem_set mem with rfl | old
          · exact Or.inr rfl
          · exact Or.inl old
        · intro spot reserving
          rw [phase] at reserving
          cases reserving
        · intro releasing
          rw [before] at releasing
          cases releasing
        · intro releasing
          simp [Call.releasing, phase] at releasing

end

theorem judge_live {token : CancellationToken} {result : EpisodeResult}
    (live : (judge token result).cancelled = false) : token.cancelled = false := by
  unfold judge at live
  by_contra cancelled
  revert live
  split_ifs <;> simp [cancelled]

theorem effect_step (books : stream.Booked settings) (guard : stream.calm action)
    (stepped : stream.step settings action = some next) : Effect settings stream action next := by
  cases step_moves stepped with
  | submit =>
    rename_i plans sequence
    rcases submit_cases settings stream plans sequence with
      ⟨owners, same⟩ | ⟨-, -, owners, runId, same⟩
    · rw [same]
      exact .refused rfl rfl rfl
    · rw [same]
      exact .submitted rfl rfl rfl rfl rfl
  | enter found phase free =>
    rename_i number call
    have placed := (books.sound call (mem_of_getElem? found)).placed
    unfold Call.Placed at placed
    simp only [phase] at placed
    have idle : call.releasing = false := by simp [Call.releasing, phase]
    obtain ⟨sleeping, awake⟩ := acquiring_awake call.tickets
    unfold enterGroup
    split_ifs
    · exact effect_put found (books.put found _) rfl (fun _ => le_rfl) rfl
        (fun _ mem _ => mem) rfl (nofun) idle.symm
    · exact effect_put found (books.put found _) rfl (fun _ => le_rfl) rfl
        (fun _ mem _ => mem) rfl (nofun) idle.symm
    · refine effect_put found (books.put found _) rfl (fun _ => le_rfl) rfl
        ?_ ?_ (nofun) idle.symm
      · intro job mem sleeping
        rw [awake job mem] at sleeping
        cases sleeping
      · rw [placed.1]
        exact sleeping
  | collected found phase gathered =>
    exact effect_leave books found (by simp [Call.releasing, phase]) _
  | next found phase =>
    rename_i number offset call
    have idle : call.releasing = false := by simp [Call.releasing, phase]
    unfold nextWave
    split_ifs
    · exact effect_leave books found idle _
    · exact effect_leave books found idle _
    · exact effect_leave books found idle _
    · exact effect_reserveWave books found idle
  | reserve found phase => exact effect_reserveWave books found (by simp [Call.releasing, phase])
  | gathered found phase gathered =>
    rename_i number offset call
    exact effect_put found
      (books.put found _) rfl (fun _ => le_rfl)
      rfl (fun _ mem _ => mem) rfl (nofun)
      (by simp [Call.releasing, phase, gathered])
  | returned found phase waits =>
    rename_i number call outcome
    refine effect_put found
      (books.put found _) rfl (fun _ => le_rfl)
      rfl (fun _ mem _ => mem) rfl ?_ rfl
    intro offset wrong
    rw [phase] at wrong
    cases wrong
  | admitted found phase =>
    rename_i number offset call outcome
    cases outcome with
    | raised | cancelled => cases guard
    | returned closure =>
      have sound := books.own found
      have placed := sound.placed
      unfold Call.Placed at placed
      simp only [phase] at placed
      obtain ⟨charged, jobs⟩ := placed
      obtain ⟨sleeping, awake⟩ := acquiring_awake (call.selected settings offset)
      -- The wave holds a plan, so its new coroutines have something to do.
      have wave : call.selected settings offset ∈ waves settings call.tickets :=
        List.IsPrefix.subset ⟨_, charged.charged⟩ (mem_of_getLast? charged.last)
      obtain ⟨ticket, rest, some_⟩ :=
        exists_cons_of_ne_nil (waves_fit settings _ _ wave).1
      refine effect_put found (books.put found _) rfl
        (fun _ => le_rfl) rfl ?_ ?_ (nofun) ?_
      · intro job mem sleeping
        rw [awake job mem] at sleeping
        cases sleeping
      · rw [jobs]
        exact sleeping
      · have before : call.releasing = false := by simp [Call.releasing, phase]
        rw [before]
        rw [some_]
        rfl
  | closed found phase =>
    exact effect_settleWave (releasing_of_mem (mem_of_getElem? found)
      (by simp [Call.releasing, phase])) _ _
  | acquire found there state free =>
    exact effect_attempt books found there (by simp [Job.waits, state]) (by simp [Job.asleep, state]) _
  | retry found there state =>
    exact effect_attempt books found there (by simp [Job.waits, state])
      (by simp [Job.asleep, state]) stream.workers
  | complete found there state =>
    rename_i number position call job outcome
    have safe : (execute job.ticket.plan outcome).safe = true := guard call found job there
    refine .notified rfl (fun live => ⟨judge_live live, ?_⟩)
      (Or.inl ⟨call, mem_of_getElem? found, job, mem_of_getElem? there, state⟩)
    show lost (if call.owned then _ else _) = _
    split_ifs <;> rfl
  | interrupt | cancel | pause | resume | close => exact guard.elim

end Effects

end Stream

/-! ### Waiters -/

/-- A waiter that has not been notified has nothing to do: nobody has cancelled, and it does not fit
beside what is reserved. Without a cancellation nothing is lost. -/
structure Awake (settings : Settings) (cancelled : Bool) (ledger : Ledger Ticket Account ℚ)
    (calls : List Call) : Prop where
  jobs : ∀ call ∈ calls, ∀ job ∈ call.jobs, job.asleep = true → cancelled = false ∧
    settings.fits ledger.reserved job.ticket.plan.task.resources = false
  waves : ∀ call ∈ calls, ∀ offset, call.phase = .reserving offset false → cancelled = false ∧
    settings.waveFits ledger.reserved (plansOf (call.selected settings offset)) = false
  kept : cancelled = false → ledger.lost = []

theorem Job.notify_asleep : job.notify.asleep = false := by
  unfold Job.notify Job.asleep
  cases state : job.state <;> simp [state]

theorem Call.notify_phase (offset : ℕ) : call.notify.phase ≠ .reserving offset false := by
  unfold notify
  cases phase : call.phase <;> simp

/-- After a `notify_all` no job is asleep. -/
theorem asleep_notify (calls : List Call) :
    ((calls.map notify).map fun call => call.jobs.countP Job.asleep).sum = 0 := by
  refine sum_eq_zero fun count mem => ?_
  obtain ⟨call, inside, rfl⟩ := mem_map.mp mem
  obtain ⟨before, -, rfl⟩ := mem_map.mp inside
  refine countP_eq_zero.mpr fun job there => ?_
  obtain ⟨old, -, rfl⟩ := mem_map.mp there
  simp [old.notify_asleep]

namespace Stream

variable {settings : Settings} {stream next : Stream} {action : StreamAction}

/-- `Awake` of a stream. -/
def Attentive (settings : Settings) (stream : Stream) : Prop :=
  Awake settings stream.token.cancelled stream.ledger stream.calls

theorem attentive_step (attentive : stream.Attentive settings)
    (effect : Effect settings stream action next) : next.Attentive settings := by
  unfold Attentive at attentive ⊢
  cases effect with
  | submitted calls phase jobs token ledger =>
    rw [calls, token, ledger]
    refine ⟨fun call member => ?_, fun call member => ?_, attentive.kept⟩
    · rcases mem_append.mp member with old | new
      · exact attentive.jobs call old
      · obtain rfl := mem_singleton.mp new
        simp [jobs]
    · rcases mem_append.mp member with old | new
      · exact attentive.waves call old
      · obtain rfl := mem_singleton.mp new
        simp [phase]
  | refused calls token ledger =>
    rw [calls, token, ledger]
    exact attentive
  | changed found calls token grows lost waits wave =>
    rename_i number call after _ _
    have member := mem_of_getElem? found
    rw [calls, token]
    refine ⟨fun other inside job there sleeping => ?_, fun other inside offset phase => ?_,
      fun live => lost.trans (attentive.kept live)⟩
    · rcases mem_set inside with rfl | old
      · rcases waits with ⟨-, jobs⟩ | ⟨-, position, known, -, -, live, -, misfit, jobs⟩
        · obtain ⟨live, misfit⟩ := attentive.jobs call member job (jobs job there sleeping) sleeping
          exact ⟨live, fits_mono grows misfit⟩
        · rcases jobs job there sleeping with before | same
          · obtain ⟨live, misfit⟩ := attentive.jobs call member job before sleeping
            exact ⟨live, fits_mono grows misfit⟩
          · rw [same]
            exact ⟨live, fits_mono grows misfit⟩
      · obtain ⟨live, misfit⟩ := attentive.jobs other old job there sleeping
        exact ⟨live, fits_mono grows misfit⟩
    · rcases mem_set inside with rfl | old
      · exact wave offset phase
      · obtain ⟨live, misfit⟩ := attentive.waves other old offset phase
        exact ⟨live, waveFits_mono grows misfit⟩
  | notified same lost =>
    rw [same]
    refine ⟨fun call member job there sleeping => ?_, fun call member offset phase => ?_, fun live => ?_⟩
    · obtain ⟨before, -, rfl⟩ := mem_map.mp member
      obtain ⟨old, -, rfl⟩ := mem_map.mp there
      rw [old.notify_asleep] at sleeping
      cases sleeping
    · obtain ⟨before, -, rfl⟩ := mem_map.mp member
      exact absurd phase (before.notify_phase offset)
    · obtain ⟨live', same'⟩ := lost live
      exact same'.trans (attentive.kept live')

/-- The cycle is open: when plans that wait on the condition hold all worker slots, some wave is about
to be settled. -/
def Open (settings : Settings) (stream : Stream) : Prop :=
  stream.asleep = settings.maxWorkers → stream.releasing = true

section

variable {number : ℕ} {call after : Call} (found : stream.calls[number]? = some call)
  (calls : next.calls = stream.calls.set number after)
include found calls

theorem asleep_set :
    next.asleep + call.jobs.countP Job.asleep = stream.asleep + after.jobs.countP Job.asleep := by
  unfold asleep
  rw [calls]
  exact sum_set (fun call => call.jobs.countP Job.asleep) found after

theorem releasing_set (kept : call.releasing = true → after.releasing = true)
    (releasing : stream.releasing = true) :
    next.releasing = true := by
  obtain ⟨other, mem, ready⟩ := any_eq_true.mp releasing
  obtain ⟨index, place⟩ := mem_iff_getElem?.mp mem
  refine any_eq_true.mpr ?_
  rw [calls]
  by_cases here : number = index
  · subst here
    rw [found] at place
    cases place
    exact ⟨after, mem_set (List.getElem?_eq_some_iff.mp found).1 _, kept ready⟩
  · refine ⟨other, mem_iff_getElem?.mpr ⟨index, ?_⟩, ready⟩
    rw [getElem?_set_ne here]
    exact place

end

theorem open_step (cycle : stream.Open settings) (guard : stream.mindful settings action)
    (effect : Effect settings stream action next) : next.Open settings := by
  intro full
  cases effect with
  | submitted calls phase jobs token ledger =>
    have same : next.asleep = stream.asleep := by
      unfold asleep
      simp [calls, jobs]
    have before := cycle (same ▸ full)
    unfold releasing at before ⊢
    rw [calls, any_append, before]
    rfl
  | refused calls token ledger =>
    unfold asleep at full
    unfold releasing
    rw [calls] at full ⊢
    exact cycle full
  | changed found calls token grows lost waits wave kept brought =>
    rename_i number call after
    have counts := asleep_set found calls
    rcases waits with ⟨same, -⟩ | ⟨more, position, job, rfl, there, live, native, misfit, -⟩
    · exact releasing_set found calls kept (cycle (by omega))
    · by_contra still
      rw [not_eq_true] at still
      refine guard ⟨call, found, job, there, live, native, misfit, by omega, ?_⟩
      by_contra ready
      rw [not_eq_false] at ready
      rw [releasing_set found calls kept ready] at still
      cases still
  | notified same lost cause =>
    have none_ : next.asleep = 0 := by
      unfold asleep
      rw [same]
      exact asleep_notify _
    have workers := settings.maxWorkers_pos
    omega

end Stream

/-! ### Enabled steps -/

/-- A job that cannot go on with this many free worker slots. -/
def Job.quiet (workers : ℕ) (job : Job) : Bool :=
  match job.state with
  | .acquiring => workers == 0
  | .reserving notified => !notified
  | .running => false
  | .finished _ => true

/-- A call that cannot go on with these free slots. -/
def Call.quiet (workers groups : ℕ) (call : Call) : Bool :=
  match call.phase with
  | .queued => groups == 0
  | .collecting | .running _ => !call.gathered && call.jobs.all (Job.quiet workers)
  | .reserving _ notified => !notified
  | .done _ => call.returned
  | .waves _ | .admitting _ | .finishing _ => false

namespace Stream

variable {settings : Settings} {stream : Stream}

/-- Some coroutine, hook or backend can go on without a failure. -/
def Enabled (settings : Settings) (stream : Stream) : Prop :=
  ∃ action next, action.internal = true ∧ stream.calm action ∧ stream.step settings action = some next

theorem enables (action : StreamAction) (internal : action.internal = true)
    (guard : stream.calm action) (able : (stream.step settings action).isSome = true) :
    stream.Enabled settings := by
  obtain ⟨next, stepped⟩ := Option.isSome_iff_exists.mp able
  exact ⟨action, next, internal, guard, stepped⟩

theorem enabled_job {number position : ℕ} {call : Call} {job : Job}
    (found : stream.calls[number]? = some call) (there : call.jobs[position]? = some job)
    (ready : job.quiet stream.workers = false) : stream.Enabled settings := by
  cases state : job.state with
  | acquiring =>
    have free : 0 < stream.workers := by
      rw [Job.quiet, state] at ready
      exact Nat.pos_of_ne_zero (by simpa using ready)
    exact enables (.work number position) rfl trivial
      (by simp [step, withJob, found, there, work, state, free])
  | reserving notified =>
    obtain rfl : notified = true := by simpa [Job.quiet, state] using ready
    exact enables (.work number position) rfl trivial (by simp [step, withJob, found, there, work, state])
  | running =>
    -- A backend may return a verified result.
    refine enables (.complete number position (.returned (completed job.ticket.plan "verified"))) rfl ?_
      (by simp [step, withJob, found, there, state])
    · intro other here one known
      rw [found] at here
      cases here
      rw [there] at known
      cases known
      simp [execute, completed, safe, requestUncertain]
  | finished result => simp [Job.quiet, state] at ready

/-- A call that is not quiet has an enabled step. -/
theorem enabled_call {call : Call} (mem : call ∈ stream.calls)
    (ready : call.quiet stream.workers stream.groups = false) : stream.Enabled settings := by
  obtain ⟨number, found⟩ := mem_iff_getElem?.mp mem
  have advances : (stream.advance settings call).isSome = true → stream.Enabled settings :=
    fun able => enables (.advance number) rfl trivial (by simpa [step, found] using able)
  have gathers : (!call.gathered && call.jobs.all (Job.quiet stream.workers)) = false →
      (call.gathered = true → stream.Enabled settings) → stream.Enabled settings := by
    intro some_ settles
    rcases and_eq_false_iff.mp some_ with gathered | busy
    · exact settles (by simpa using gathered)
    · obtain ⟨job, inside, active⟩ := all_eq_false.mp busy
      obtain ⟨position, there⟩ := mem_iff_getElem?.mp inside
      exact enabled_job found there (by simpa using active)
  unfold Call.quiet at ready
  cases phase : call.phase <;> simp only [phase] at ready
  case queued =>
    have free : 0 < stream.groups := Nat.pos_of_ne_zero (by simpa using ready)
    exact advances (by simp [advance, phase, free])
  case collecting | running offset =>
    exact gathers ready fun gathered =>
      advances (by simp [advance, phase, gathered])
  case waves offset => exact advances (by simp [advance, phase])
  case reserving offset notified =>
    obtain rfl : notified = true := by simpa using ready
    exact advances (by simp [advance, phase])
  case admitting offset | finishing offset =>
    exact enables (.hook number (.returned none)) rfl rfl (by simp [step, found, hook, phase])
  case done outcome =>
    exact advances (by simp [advance, phase, ready])

/-- A stream has an enabled step exactly if one of its calls is not quiet. -/
theorem enabled_iff (books : stream.Booked settings) : stream.Enabled settings ↔
    ∃ call ∈ stream.calls, call.quiet stream.workers stream.groups = false := by
  refine ⟨?_, fun ⟨call, member, ready⟩ => enabled_call member ready⟩
  rintro ⟨action, next, internal, -, stepped⟩
  -- The job of a call that gathers is not quiet, and so neither is the call.
  have working : ∀ {number position : ℕ} {call : Call} {job : Job},
      stream.calls[number]? = some call → call.jobs[position]? = some job →
      job.result? = none → job.quiet stream.workers = false →
      ∃ call ∈ stream.calls, call.quiet stream.workers stream.groups = false := by
    intro number position call job found there busy active
    have member := mem_of_getElem? found
    have some_ : call.jobs.all (Job.quiet stream.workers) = false :=
      all_eq_false.mpr ⟨job, mem_of_getElem? there, by simp [active]⟩
    refine ⟨call, member, ?_⟩
    unfold Call.quiet
    rcases (books.sound call member).working there busy with phase | ⟨_, phase⟩ <;>
      simp [phase, some_]
  cases step_moves stepped with
  | enter found phase free =>
    exact ⟨_, mem_of_getElem? found, by simp [Call.quiet, phase]; omega⟩
  | collected found phase gathered | gathered found phase gathered =>
    exact ⟨_, mem_of_getElem? found, by simp [Call.quiet, phase, gathered]⟩
  | next found phase | reserve found phase | admitted found phase | closed found phase =>
    exact ⟨_, mem_of_getElem? found, by simp [Call.quiet, phase]⟩
  | returned found phase waits =>
    exact ⟨_, mem_of_getElem? found, by simp [Call.quiet, phase, waits]⟩
  | acquire found there state free =>
    refine working found there (by simp [result?, state]) ?_
    simp [Job.quiet, state]
    omega
  | retry found there state | complete found there state =>
    exact working found there (by simp [result?, state]) (by simp [Job.quiet, state])
  | submit | interrupt | cancel | pause | resume | close => cases internal

theorem asleep_le_slots (call : Call) : call.jobs.countP Job.asleep ≤ call.slots := by
  refine countP_mono_left fun job _ sleeping => ?_
  unfold Job.asleep at sleeping
  unfold Job.holds
  cases state : job.state <;> simp_all

/-- In an open cycle an outstanding call leaves some step enabled. -/
theorem enabled_of_outstanding (books : stream.Booked settings)
    (attentive : stream.Attentive settings) (cycle : stream.Open settings)
    (outstanding : ∃ call ∈ stream.calls, call.returned = false) : stream.Enabled settings := by
  by_contra stuck
  have quiet : ∀ call ∈ stream.calls, call.quiet stream.workers stream.groups = true := by
    intro call mem
    by_contra ready
    exact stuck ((enabled_iff books).mpr ⟨call, mem, not_eq_true _ ▸ ready⟩)
  -- Where a quiet call can be, and what its jobs are.
  have gathers : ∀ call ∈ stream.calls, (!call.gathered &&
      call.jobs.all (Job.quiet stream.workers)) = true → call.gathered = false ∧
      ∀ job ∈ call.jobs, job.quiet stream.workers = true := by
    intro call mem both
    rw [and_eq_true, not_eq_true'] at both
    exact ⟨both.1, all_eq_true.mp both.2⟩
  -- Every worker slot that is taken is taken by a job that is asleep.
  have slots : ∀ call ∈ stream.calls, call.slots = call.jobs.countP Job.asleep := by
    intro call mem
    have silent := quiet call mem
    have placed := (books.sound call mem).placed
    unfold Call.quiet at silent
    unfold Call.Placed at placed
    have none_ : call.gathered = true → call.slots = call.jobs.countP Job.asleep := by
      intro gathered
      have free := slots_of_gathered gathered
      have fewer := asleep_le_slots call
      omega
    have same : (∀ job ∈ call.jobs, job.quiet stream.workers = true) →
        call.slots = call.jobs.countP Job.asleep := by
      intro jobs
      refine countP_congr fun job inside => ?_
      have still := jobs job inside
      unfold Job.quiet at still
      unfold Job.holds Job.asleep
      cases state : job.state <;> simp_all
    cases phase : call.phase <;> simp only [phase] at silent placed
    case queued => exact none_ (by simp [gathered, placed.1])
    case collecting | running => exact same (gathers call mem silent).2
    case waves | admitting | finishing => cases silent
    case reserving => exact none_ (by simp [gathered, placed.2.2])
    case done => exact none_ placed.1
  have total : stream.asleep = (stream.calls.map Call.slots).sum := by
    exact congrArg sum (map_congr_left fun call mem => (slots call mem).symm)
  -- So a worker slot is free, since no wave is about to be settled.
  have free : stream.workers ≠ 0 := by
    intro none_
    have sum := books.slotSum
    obtain ⟨call, mem, ready⟩ := any_eq_true.mp (cycle (by omega))
    have silent := quiet call mem
    unfold Call.quiet at silent
    unfold Call.releasing at ready
    cases phase : call.phase <;> simp only [phase] at silent ready <;> simp_all
  -- A call that gathers waits on the condition, and no wave runs.
  have sleeper : ∀ call ∈ stream.calls, (!call.gathered &&
      call.jobs.all (Job.quiet stream.workers)) = true →
      ∃ job ∈ call.jobs, job.state = .reserving false := by
    intro call mem both
    obtain ⟨open_, jobs⟩ := gathers call mem both
    obtain ⟨job, inside, busy⟩ := all_eq_false.mp open_
    refine ⟨job, inside, ?_⟩
    have still := jobs job inside
    unfold Job.quiet at still
    unfold result? at busy
    cases state : job.state <;> simp_all
  have nothing : ∀ call ∈ stream.calls, call.outstanding settings = [] := by
    intro call mem
    have silent := quiet call mem
    have placed := (books.sound call mem).placed
    unfold Call.quiet at silent
    unfold Call.Placed at placed
    unfold Call.outstanding
    cases phase : call.phase <;> simp only [phase] at silent placed ⊢
    case collecting =>
      refine flatMap_eq_nil_iff.mpr fun job inside => ?_
      have still := (gathers call mem silent).2 job inside
      unfold Job.quiet at still
      unfold Job.outstanding
      cases state : job.state <;> simp_all
    case admitting | finishing => cases silent
    case running =>
      obtain ⟨job, inside, state⟩ := sleeper call mem silent
      exact absurd state (placed.2.2 job inside false)
  have empty : stream.token.cancelled = false → ∀ account, stream.ledger.reserved account = 0 := by
    intro live account
    rw [books.balanced.reserved, attentive.kept live, flatMap_eq_nil_iff.mpr nothing]
    simp
  -- Some call inside its group waits for capacity, which is all free.
  obtain ⟨call, mem, inside⟩ : ∃ call ∈ stream.calls, call.inGroup = true := by
    obtain ⟨call, mem, open_⟩ := outstanding
    have silent := quiet call mem
    unfold Call.quiet at silent
    by_cases inside : call.inGroup = true
    · exact ⟨call, mem, inside⟩
    · have none_ : stream.groups = 0 := by
        unfold inGroup at inside
        cases phase : call.phase <;> simp_all
      have groups := books.groupSum
      have some_ := settings.maxGroups_pos
      obtain ⟨other, there, holds⟩ := countP_pos_iff.mp
        (show 0 < stream.calls.countP inGroup by omega)
      exact ⟨other, there, holds⟩
  have silent := quiet call mem
  have sound := books.sound call mem
  unfold Call.quiet at silent
  have native : (!call.gathered && call.jobs.all (Job.quiet stream.workers)) = true → False := by
    intro both
    obtain ⟨job, there, state⟩ := sleeper call mem both
    obtain ⟨live, misfit⟩ := attentive.jobs call mem job there (by simp [Job.asleep, state])
    obtain ⟨position, place⟩ := mem_iff_getElem?.mp there
    have own : settings.validResources job.ticket.plan.task.resources = true := by
      refine tickets_validated sound.acceptable job.ticket ?_
      have placed := sound.placed
      unfold Call.Placed at placed
      rcases sound.working place (by simp [result?, state]) with phase | ⟨offset, phase⟩
      · simp only [phase] at placed
        rw [← placed.2.1.same]
        exact mem_map_of_mem there
      · simp only [phase] at placed
        have inside : job.ticket ∈ call.selected settings offset := by
          rw [← placed.2.1.same]
          exact mem_map_of_mem there
        exact mem_selected inside
    rw [fits_of_empty own (empty live)] at misfit
    cases misfit
  cases phase : call.phase <;> simp only [phase] at silent
  case queued | done => simp [inGroup, phase] at inside
  case collecting | running => exact native silent
  case waves | admitting | finishing => cases silent
  case reserving offset notified =>
    obtain rfl : notified = false := by simpa using silent
    obtain ⟨live, misfit⟩ := attentive.waves call mem offset phase
    have fits : settings.waveFits stream.ledger.reserved
        (plansOf (call.selected settings offset)) = true := by
      rw [show stream.ledger.reserved = fun _ => 0 from funext (empty live)]
      exact (selectWave_spec settings _).2.2
    rw [fits] at misfit
    cases misfit

end Stream

/-! ### Nothing goes on for ever -/

def Job.weight (job : Job) : ℕ :=
  match job.state with
  | .acquiring => 25
  | .reserving _ => 20
  | .running => 15
  | .finished _ => 10

/-- A notice that a waiter has not used yet. -/
def Job.notices (job : Job) : ℕ :=
  match job.state with
  | .reserving true => 1
  | _ => 0

/-- What a call can still use up. A cancelled stream takes no further turn of the loop. -/
def Call.weight (cancelled : Bool) (call : Call) : ℕ :=
  match call.phase with
  | .queued => 30 * call.plans.length + 20
  | .collecting => (call.jobs.map Job.weight).sum + 2
  | .waves offset => 30 * (call.plans.length - offset) + if cancelled then 5 else 7
  | .reserving offset _ => 30 * (call.plans.length - offset) + 6
  | .admitting offset => 30 * (call.plans.length - offset) + 4
  | .running offset =>
    30 * (call.plans.length - (offset + call.jobs.length)) + (call.jobs.map Job.weight).sum + 3
  | .finishing offset =>
    30 * (call.plans.length - (offset + call.jobs.length)) + (call.jobs.map Job.weight).sum + 2
  | .done _ => if call.returned then 0 else 1

def Call.notices (call : Call) : ℕ :=
  (call.jobs.map Job.notices).sum +
    match call.phase with
    | .reserving _ true => 1
    | _ => 0

theorem Call.weight_mono {before after : Bool} (kept : before = true → after = true) :
    call.weight after ≤ call.weight before := by
  unfold Call.weight
  cases call.phase <;> cases before <;> cases after <;> simp_all

theorem Call.notify_weight (cancelled : Bool) :
    call.notify.weight cancelled = call.weight cancelled := by
  have jobs : (call.jobs.map Job.notify).map Job.weight = call.jobs.map Job.weight := by
    rw [map_map]
    refine map_congr_left fun job _ => ?_
    unfold Job.notify Job.weight
    cases state : job.state <;> simp [state]
  unfold Call.weight notify
  cases phase : call.phase <;> simp [jobs]

namespace Stream

variable {settings : Settings} {stream next : Stream} {action : StreamAction} {number : ℕ}
  {call after : Call}

def weight (stream : Stream) : ℕ := (stream.calls.map (Call.weight stream.token.cancelled)).sum

def notices (stream : Stream) : ℕ := (stream.calls.map Call.notices).sum

/-- The step uses something up, or it uses a notice. -/
def Lighter (stream next : Stream) : Prop :=
  next.weight < stream.weight ∨ next.weight = stream.weight ∧ next.notices < stream.notices

section

variable (found : stream.calls[number]? = some call)
include found

theorem weight_set_lt {cancelled : Bool} (kept : stream.token.cancelled = true → cancelled = true)
    (less : after.weight cancelled < call.weight stream.token.cancelled) :
    ((stream.calls.set number after).map (Call.weight cancelled)).sum < stream.weight := by
  obtain ⟨rest, before, changed⟩ := exists_rest found
  have old := (before.map (Call.weight stream.token.cancelled)).sum_eq
  have new := ((changed after).map (Call.weight cancelled)).sum_eq
  have others : (rest.map (Call.weight cancelled)).sum
      ≤ (rest.map (Call.weight stream.token.cancelled)).sum :=
    sum_le_sum fun other _ => other.weight_mono kept
  simp only [map_cons, sum_cons] at old new
  unfold weight
  omega

theorem lighter_set (calls : next.calls = stream.calls.set number after)
    (kept : stream.token.cancelled = true → next.token.cancelled = true)
    (less : after.weight next.token.cancelled < call.weight stream.token.cancelled) :
    stream.Lighter next := by
  have lower := weight_set_lt found kept less
  rw [← calls] at lower
  exact Or.inl lower

theorem lighter_notified (calls : next.calls = (stream.calls.set number after).map notify)
    (kept : stream.token.cancelled = true → next.token.cancelled = true)
    (less : after.weight next.token.cancelled < call.weight stream.token.cancelled) :
    stream.Lighter next := by
  have lower := weight_set_lt found kept less
  have same : next.calls.map (Call.weight next.token.cancelled)
      = (stream.calls.set number after).map (Call.weight next.token.cancelled) := by
    rw [calls, map_map]
    exact map_congr_left fun other _ => other.notify_weight _
  rw [← same] at lower
  exact Or.inl lower

theorem lighter_waits (calls : next.calls = stream.calls.set number after)
    (token : next.token = stream.token)
    (same : after.weight stream.token.cancelled = call.weight stream.token.cancelled)
    (fewer : after.notices < call.notices) : stream.Lighter next := by
  have weights := sum_set (Call.weight stream.token.cancelled) found after
  have counts := sum_set Call.notices found after
  refine Or.inr ⟨?_, ?_⟩
  · unfold weight
    rw [calls, token]
    omega
  · unfold notices
    rw [calls]
    omega

end

theorem weight_setJob (sound : call.Sound settings) (after : Call) {position : ℕ} {job : Job}
    (there : call.jobs[position]? = some job) (busy : job.result? = none) {state : JobState}
    (plans : after.plans = call.plans) (phase : after.phase = call.phase)
    (jobs : after.jobs = call.jobs.set position { job with state := state })
    (cancelled cancelled' : Bool) :
    after.weight cancelled + job.weight
      = call.weight cancelled' + ({ job with state := state } : Job).weight := by
  have sums := sum_set Job.weight there { job with state := state }
  have count : after.jobs.length = call.jobs.length := by rw [jobs, length_set]
  rw [← jobs] at sums
  unfold Call.weight
  rw [phase, plans, count]
  rcases sound.working there busy with place | ⟨offset, place⟩ <;> simp only [place] <;> omega

theorem jobs_weight (jobs : List Job) : 10 * jobs.length ≤ (jobs.map Job.weight).sum := by
  induction jobs with
  | nil => exact le_rfl
  | cons job rest known =>
    have some_ : 10 ≤ job.weight := by
      unfold Job.weight
      cases job.state <;> simp
    simp only [length_cons, map_cons, sum_cons]
    omega

theorem acquiring_weight (tickets : List Ticket) :
    ((tickets.map fun ticket => (⟨ticket, .acquiring⟩ : Job)).map Job.weight).sum
      = 25 * tickets.length := by
  induction tickets with
  | nil => rfl
  | cons ticket rest known =>
    simp only [map_cons, sum_cons, length_cons, known]
    simp only [Job.weight]
    omega

theorem done_weight (outcome : Except String (List EpisodeResult)) (cancelled : Bool) :
    ({ call with phase := .done outcome } : Call).weight cancelled ≤ 1 := by
  simp only [Call.weight]
  split_ifs <;> omega

section

variable (books : stream.Booked settings)
include books

theorem lighter_attempt {position workers : ℕ} {job : Job} (found : stream.calls[number]? = some call)
    (there : call.jobs[position]? = some job)
    (waits : job.state = .acquiring ∨ job.state = .reserving true) :
    stream.Lighter ({ stream with workers := workers }.attempt settings call position job) := by
  have sound := books.own found
  have here := books.numbered number call found
  have busy : job.result? = none := by
    rcases waits with state | state <;> simp [result?, state]
  have heavy : 20 ≤ job.weight := by
    rcases waits with state | state <;> simp [Job.weight, state]
  -- A coroutine that goes on weighs less.
  have lowers : ∀ {moved : Call} {state : JobState} {later : Stream},
      later.calls = stream.calls.set call.number moved → later.token = stream.token →
      moved.plans = call.plans → moved.phase = call.phase →
      moved.jobs = call.jobs.set position { job with state := state } →
      ({ job with state := state } : Job).weight < job.weight → stream.Lighter later := by
    intro moved state later calls token plans phase jobs less
    have weights := weight_setJob sound moved there busy plans phase jobs stream.token.cancelled
      stream.token.cancelled
    rw [here] at calls
    refine lighter_set found calls (fun cancelled => token ▸ cancelled) ?_
    rw [token]
    omega
  unfold attempt
  split_ifs with cancelled owned fits
  · exact lowers rfl rfl rfl rfl rfl (show 10 < job.weight by omega)
  · exact lowers rfl rfl rfl rfl rfl (show 15 < job.weight by omega)
  · exact lowers rfl rfl rfl rfl rfl (show 15 < job.weight by omega)
  · rcases waits with state | state
    · exact lowers rfl rfl rfl rfl rfl (show 20 < job.weight by simp [Job.weight, state])
    · -- It waits again and has used its notice.
      have weights := weight_setJob sound { call with
        jobs := call.jobs.set position { job with state := .reserving false } } there busy
        rfl rfl rfl stream.token.cancelled stream.token.cancelled
      have counts := sum_set Job.notices there { job with state := .reserving false }
      have used : job.notices = 1 := by simp [Job.notices, state]
      have same : ({ job with state := .reserving false } : Job).weight = job.weight := by
        simp [Job.weight, state]
      have unused : ({ job with state := .reserving false } : Job).notices = 0 := rfl
      refine lighter_waits found (books.put found _) rfl ?_ ?_
      · omega
      · simp only [Call.notices]
        omega

theorem lighter_reserveWave {offset : ℕ} (found : stream.calls[number]? = some call)
    (heavy : call.phase = .reserving offset true ∨ call.phase = .waves offset ∧ stream.token.cancelled =
      false) :
    stream.Lighter (stream.reserveWave settings call offset) := by
  have calls := fun after : Call =>
    congrArg (stream.calls.set · after) (books.numbered number call found)
  unfold reserveWave
  dsimp only
  split_ifs with cancelled fits
  · rcases heavy with phase | ⟨-, live⟩
    · refine lighter_set found (calls _) id ?_
      show Call.weight stream.token.cancelled _ < _
      simp [Call.weight, phase, cancelled]
    · rw [live] at cancelled
      cases cancelled
  · refine lighter_set found (calls _) id ?_
    rcases heavy with phase | ⟨phase, live⟩
    · simp [Call.weight, phase]
    · simp [Call.weight, phase, live]
  · rcases heavy with phase | ⟨phase, live⟩
    · refine lighter_waits found (calls _) rfl ?_ ?_
      · simp [Call.weight, phase]
      · simp [Call.notices, phase]
    · refine lighter_set found (calls _) id ?_
      simp [Call.weight, phase, live]

/-- Every calm step that brings no new call uses something up. -/
theorem lighter_step (internal : action.internal = true) (guard : stream.calm action)
    (stepped : stream.step settings action = some next) :
    stream.Lighter next := by
  cases step_moves stepped with
  | enter found phase free =>
    rename_i number call
    have heavy : call.weight stream.token.cancelled = 30 * call.plans.length + 20 := by
      simp [Call.weight, phase]
    unfold enterGroup
    split_ifs
    all_goals refine lighter_set found (books.put found _) id ?_
    · exact (done_weight _ _).trans_lt (by omega)
    · rw [heavy]
      simp only [Call.weight]
      split_ifs <;> omega
    · rw [heavy]
      simp only [Call.weight, collect, acquiring_weight, length_tickets]
      omega
  | collected found phase gathered =>
    rename_i number call
    refine lighter_set found (books.put found _) id ?_
    refine (done_weight _ _).trans_lt ?_
    simp only [Call.weight, phase]
    omega
  | next found phase =>
    rename_i number offset call
    have leaves : ∀ outcome, stream.Lighter (stream.leave call outcome) := by
      intro outcome
      refine lighter_set found (books.put found _) id ?_
      refine (done_weight _ _).trans_lt ?_
      simp only [Call.weight, phase]
      split_ifs <;> omega
    unfold nextWave
    split_ifs with ended cancelled
    · exact leaves _
    · exact leaves _
    · exact leaves _
    · exact lighter_reserveWave books found (Or.inr ⟨phase, eq_false_iff.mpr cancelled⟩)
  | reserve found phase => exact lighter_reserveWave books found (Or.inl phase)
  | gathered found phase gathered =>
    rename_i number offset call
    refine lighter_set found (books.put found _) id ?_
    simp only [Call.weight, phase]
    omega
  | returned found phase waits =>
    rename_i number call outcome
    refine lighter_set found (books.put found _) id ?_
    simp [Call.weight, phase, waits]
  | admitted found phase =>
    rename_i number offset call outcome
    cases outcome with
    | raised | cancelled => cases guard
    | returned closure =>
      have count := (selected_begins settings call offset).length_le
      rw [length_drop, length_tickets] at count
      refine lighter_set found (books.put found _) id ?_
      simp only [Call.weight, phase, collect, acquiring_weight, length_map]
      omega
  | closed found phase =>
    rename_i number offset call outcome
    have here := books.numbered number call found
    have sound := books.own found
    have placed := sound.placed
    unfold Call.Placed at placed
    simp only [phase] at placed
    obtain ⟨charged, gathering, -⟩ := placed
    have count : call.jobs.length = (call.selected settings offset).length := by
      rw [← gathering.same, length_map]
    have wave : call.selected settings offset ∈ waves settings call.tickets :=
      List.IsPrefix.subset ⟨_, charged.charged⟩ (mem_of_getLast? charged.last)
    have some_ := length_pos_of_ne_nil (waves_fit settings _ _ wave).1
    have weighs := jobs_weight call.jobs
    have less : ∀ (cancelled : Bool) (results : List EpisodeResult), ({ call with
        phase := .waves (offset + (call.selected settings offset).length)
        jobs := []
        results := results } : Call).weight cancelled < call.weight stream.token.cancelled := by
      intro cancelled results
      simp only [Call.weight, phase, count]
      split_ifs <;> omega
    unfold settleWave
    dsimp only
    split_ifs
    · exact lighter_notified found (congrArg (fun place => (stream.calls.set place _).map _) here)
        id (less _ _)
    · exact lighter_notified found (congrArg (fun place => (stream.calls.set place _).map _) here)
        (fun _ => rfl) (less _ _)
  | acquire found there state free => exact lighter_attempt books found there (Or.inl state)
  | retry found there state => exact lighter_attempt books found there (Or.inr state)
  | complete found there state =>
    rename_i number position call job outcome
    have here := books.numbered number call found
    have sound := books.own found
    have kept : stream.token.cancelled = true →
        (judge stream.token (execute job.ticket.plan outcome)).cancelled = true := by
      intro cancelled
      by_contra live
      rw [not_eq_true] at live
      rw [judge_live live] at cancelled
      cases cancelled
    have weights := weight_setJob sound { call with
      jobs := call.jobs.set position
        { job with state := .finished (execute job.ticket.plan outcome) } } there
      (by simp [result?, state]) rfl rfl rfl
      (judge stream.token (execute job.ticket.plan outcome)).cancelled stream.token.cancelled
    have heavy : job.weight = 15 := by simp [Job.weight, state]
    have light : ({ job with state := .finished (execute job.ticket.plan outcome) } : Job).weight
        = 10 := rfl
    refine lighter_notified found (congrArg (fun place => (stream.calls.set place _).map _) here) kept ?_
    show Call.weight (judge stream.token (execute job.ticket.plan outcome)).cancelled _ < _
    omega
  | submit | interrupt | cancel | pause | resume | close => cases internal

end

end Stream

/-! ### Runs -/

theorem calm_run {pendingLimit : ℕ} {stream : Stream}
    (reached : (streamSystem settings pendingLimit).Reachable Stream.calm stream) :
    stream.Booked settings ∧ stream.Attentive settings := by
  refine reached.invariant (fun state => state.Booked settings ∧ state.Attentive settings) ?_ ?_
  · rintro start ⟨token, rfl⟩
    refine ⟨booked_run ⟨_, ⟨token, rfl⟩, refl _⟩, ?_, ?_, fun _ => rfl⟩
    all_goals
      intro call mem
      cases mem
  · rintro before action after guard stepped ⟨books, attentive⟩
    exact ⟨Stream.booked_step books stepped,
      Stream.attentive_step attentive (Stream.effect_step books guard stepped)⟩

theorem mindful_run {pendingLimit : ℕ} {stream : Stream}
    (reached : (streamSystem settings pendingLimit).Reachable (Stream.mindful settings) stream) :
    (stream.Booked settings ∧ stream.Attentive settings) ∧ stream.Open settings := by
  refine reached.invariant (fun state =>
    (state.Booked settings ∧ state.Attentive settings) ∧ state.Open settings) ?_ ?_
  · rintro start ⟨token, rfl⟩
    refine ⟨calm_run ⟨_, ⟨token, rfl⟩, refl _⟩, fun full => ?_⟩
    have workers := settings.maxWorkers_pos
    change 0 = settings.maxWorkers at full
    omega
  · rintro before action after guard stepped ⟨⟨books, attentive⟩, cycle⟩
    have effect := Stream.effect_step books (Stream.mindful_calm guard) stepped
    exact ⟨⟨Stream.booked_step books stepped, Stream.attentive_step attentive effect⟩,
      Stream.open_step cycle guard effect⟩

theorem no_infinite_course (path : ℕ → Stream) (books : (path 0).Booked settings)
    (steps : ∀ index, ∃ action, action.internal = true ∧ (path index).calm action ∧
      (path index).step settings action = some (path (index + 1))) : False := by
  have booked : ∀ index, (path index).Booked settings := by
    intro index
    induction index with
    | zero => exact books
    | succ index known =>
      obtain ⟨action, -, -, stepped⟩ := steps index
      exact Stream.booked_step known stepped
  obtain ⟨-, -, index, -, wrong⟩ := System.eventually_stutters path Stream.weight
    Stream.notices (fun _ => False) (fun index => by
      obtain ⟨action, internal, guard, stepped⟩ := steps index
      rcases Stream.lighter_step (booked index) internal guard stepped with less | ⟨same, fewer⟩
      · exact Or.inl less
      · exact Or.inr ⟨same, Or.inl fewer⟩)
  exact wrong

/-- Without failures and disturbances, and as long as no plan closes the cycle by going to wait in the
last worker slot, every reachable stream with an outstanding group has an enabled step, and the calls
that are there come to an end. -/
theorem stream_progress (settings : Settings) (pendingLimit : ℕ) (stream : Stream)
    (reached : (streamSystem settings pendingLimit).Reachable (Stream.mindful settings) stream) :
    ((∃ call ∈ stream.calls, call.returned = false) → stream.Enabled settings) ∧
    ¬ ∃ path : ℕ → Stream, path 0 = stream ∧ ∀ index, ∃ action, action.internal = true ∧
      (path index).calm action ∧
      (path index).step settings action = some (path (index + 1)) := by
  obtain ⟨⟨books, attentive⟩, cycle⟩ := mindful_run reached
  refine ⟨Stream.enabled_of_outstanding books attentive cycle, ?_⟩
  rintro ⟨path, start, steps⟩
  exact no_infinite_course path (start ▸ books) steps

/-- The two groups of `mixed` run one after the other. -/
def inTurn : List StreamAction :=
  [.submit [terminalPlan 0] 0, .submit [kernelPlan 0] 1, .advance 0, .advance 0,
    .hook 0 (.returned none), .work 0 0, .advance 1]

theorem stream_progress_inTurn : ∃ stream,
    (streamSystem mixed 2).Reachable (Stream.mindful mixed) stream ∧
      stream.calls.map (·.returned) = [false, false] ∧ stream.Enabled mixed := by
  have executed : ((streamSystem mixed 2).run (Stream.mindful mixed)
      (Stream.opened mixed 2 .fresh) inTurn).map (fun stream => stream.calls.map (·.returned))
        = some [false, false] := by
    decide +kernel
  obtain ⟨stream, finish, same⟩ := Option.map_eq_some_iff.mp executed
  have reached : (streamSystem mixed 2).Reachable (Stream.mindful mixed) stream :=
    System.reachable_of_run ⟨_, rfl⟩ finish
  refine ⟨stream, reached, same, (stream_progress mixed 2 stream reached).1 ?_⟩
  have member : false ∈ stream.calls.map (·.returned) := by simp [same]
  obtain ⟨call, inside, open_⟩ := mem_map.mp member
  exact ⟨call, inside, open_⟩

/-- The wave is charged, the other plan takes the worker slot and waits for what the wave has. -/
def crossed : List StreamAction :=
  [.submit [terminalPlan 0] 0, .submit [kernelPlan 0] 1, .advance 0, .advance 0, .advance 1,
    .work 1 0, .hook 0 (.returned none)]

/-- That a run is calm does not suffice. -/
theorem stream_stuck : ¬ ∀ (settings : Settings) (pendingLimit : ℕ) (stream : Stream),
    (streamSystem settings pendingLimit).Reachable Stream.calm stream →
      (∃ call ∈ stream.calls, call.returned = false) → stream.Enabled settings := by
  intro progress
  have executed : ((streamSystem mixed 2).run Stream.calm (Stream.opened mixed 2 .fresh)
      crossed).map (fun stream => (stream.calls.map (·.returned),
        stream.calls.all (Call.quiet stream.workers stream.groups))) = some ([false, false], true) := by
    decide +kernel
  obtain ⟨stream, finish, same⟩ := Option.map_eq_some_iff.mp executed
  simp only [Prod.mk.injEq] at same
  obtain ⟨open_, quiet⟩ := same
  have reached : (streamSystem mixed 2).Reachable Stream.calm stream :=
    System.reachable_of_run ⟨_, rfl⟩ finish
  have member : false ∈ stream.calls.map (·.returned) := by simp [open_]
  obtain ⟨call, inside, waits⟩ := mem_map.mp member
  obtain ⟨other, there, ready⟩ := (Stream.enabled_iff (calm_run reached).1).mp
    (progress mixed 2 stream reached ⟨call, inside, waits⟩)
  rw [all_eq_true.mp quiet other there] at ready
  cases ready

end TinyDSV41.Coordinator
