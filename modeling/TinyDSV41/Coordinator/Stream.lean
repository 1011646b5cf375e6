/-
**The coordinator's stream as a transition system.**

Every accepted call of `execute_stream_group` runs a `group()` coroutine, and that one an `execute`
coroutine for each plan. The calls share the two semaphores, the reservations, the condition variable,
the token and the credit for pending samples. A coroutine runs alone between two suspensions, and the
lock of the condition is never held across one; so each step of the model is one such stretch or a part
of it. A waiter of the condition goes on only after a `notify_all` (`notified`); a waiter of a
semaphore goes on when a slot is free, whatever the order of the waiters.

* `Call`, `Job` — where a call and its `execute` coroutines are.
* `Stream.submit` — the checks of a new call, in their order.
* `Stream.step`, `streamSystem` — the steps, and the runs of a freshly opened stream.
* `step_moves` — everything a step can be.
* `waves_flatten`, `waves_fit` — the physical waves of a group, in order, are the group, and each of
  them fits the workers and the empty executors.

An event store that fails is not modelled, nor what `close_stream` does to the backends.
-/

import TinyDSV41.Coordinator.Run
import TinyDSV41.Lib.Cells

namespace TinyDSV41.Coordinator

open List Lib Option Ledger EpisodeResult

/-! ### Calls -/

structure Ticket where
  call : ℕ
  index : ℕ
  plan : EpisodePlan
deriving DecidableEq

def Ticket.demand (ticket : Ticket) : Account → ℚ := ticket.plan.task.resources.demand

/-- Where an `execute` coroutine is. -/
inductive JobState
  /-- Not started yet, or waiting for a worker slot. -/
  | acquiring
  /-- Holding a worker slot and waiting on the condition. -/
  | reserving (notified : Bool)
  /-- Its backend executes the plan. -/
  | running
  | finished (result : EpisodeResult)

/-- An `execute` coroutine. -/
structure Job where
  ticket : Ticket
  state : JobState

/-- Where a `group()` coroutine is; `offset` is that of its loop over the waves. -/
inductive Phase
  /-- Not started yet, or waiting for a group slot. -/
  | queued
  /-- Gathering all plans of a group without wave hooks. -/
  | collecting
  | waves (offset : ℕ)
  /-- Waiting on the condition until the wave fits. -/
  | reserving (offset : ℕ) (notified : Bool)
  /-- Awaiting `admit_group`; the wave is charged. -/
  | admitting (offset : ℕ)
  /-- Gathering the plans of the wave. -/
  | running (offset : ℕ)
  /-- Awaiting `finish_group`. -/
  | finishing (offset : ℕ)
  | done (outcome : Except String (List EpisodeResult))

/-- An accepted call. `admitted` is history: what was charged, wave by wave or plan by plan. -/
structure Call where
  number : ℕ
  plans : List EpisodePlan
  phase : Phase
  jobs : List Job
  results : List EpisodeResult
  admitted : List (List Ticket)
  returned : Bool

structure Stream where
  pendingLimit : ℕ
  pending : ℕ
  workers : ℕ
  groups : ℕ
  stageOwners : List (String × Backend)
  paused : Bool
  closed : Bool
  sequence : ℤ
  runId : Option String
  token : CancellationToken
  ledger : Ledger Ticket Account ℚ
  calls : List Call

/-- One step of a coroutine or of its environment. -/
inductive StreamAction
  /-- `execute_stream_group` is called. -/
  | submit (plans : List EpisodePlan) (sequence : ℤ)
  /-- A `group()` coroutine, or the waiter of a finished one, goes on. -/
  | advance (call : ℕ)
  /-- The awaited hook ends; a hook that raises is given by the type it raises. -/
  | hook (call : ℕ) (outcome : HookOutcome)
  /-- An `execute` coroutine goes on. -/
  | work (call position : ℕ)
  /-- A backend ends. -/
  | complete (call position : ℕ) (outcome : Outcome)
  /-- The task awaiting `execute_stream_group` is cancelled. -/
  | interrupt (call : ℕ)
  /-- Another holder of the token cancels it. -/
  | cancel (reason : Option String)
  | pause
  | resume
  | close

/-- The type an exception is reported under. -/
def HookOutcome.errorType : HookOutcome → String
  | .returned _ => ""
  | .raised text => text
  | .cancelled => "CancelledError"

/-! ### Waves -/

def plansOf (tickets : List Ticket) : List EpisodePlan := tickets.map (·.plan)

/-- The longest prefix of the candidates that fits the empty executors together with what is
selected. -/
def selectFitting (settings : Settings) (selected : List Ticket) : List Ticket → List Ticket
  | [] => selected
  | ticket :: rest =>
    if settings.fitsCapacity (plansOf (selected ++ [ticket])) then
      selectFitting settings (selected ++ [ticket]) rest
    else selected

def selectWave (settings : Settings) (left : List Ticket) : List Ticket :=
  selectFitting settings [] (left.take settings.maxWorkers)

theorem selectFitting_begins (settings : Settings) (selected candidates : List Ticket) :
    ∃ chosen, selectFitting settings selected candidates = selected ++ chosen ∧
      chosen <+: candidates := by
  induction candidates generalizing selected with
  | nil => exact ⟨[], by simp [selectFitting], nil_prefix⟩
  | cons ticket rest ih =>
    unfold selectFitting
    by_cases fits : settings.fitsCapacity (plansOf (selected ++ [ticket])) = true
    · rw [if_pos fits]
      obtain ⟨chosen, same, inside⟩ := ih (selected ++ [ticket])
      exact ⟨ticket :: chosen, by simpa using same, (prefix_cons_inj ticket).mpr inside⟩
    · rw [if_neg fits]
      exact ⟨[], by simp, nil_prefix⟩

theorem selectFitting_fits (settings : Settings) {selected : List Ticket}
    (fits : settings.fitsCapacity (plansOf selected) = true) (candidates : List Ticket) :
    settings.fitsCapacity (plansOf (selectFitting settings selected candidates)) = true := by
  induction candidates generalizing selected with
  | nil => exact fits
  | cons ticket rest ih =>
    unfold selectFitting
    by_cases more : settings.fitsCapacity (plansOf (selected ++ [ticket])) = true
    · rw [if_pos more]
      exact ih more
    · rw [if_neg more]
      exact fits

/-- A wave is a prefix of what is left, of at most `maxWorkers` plans, and fits the empty executors. -/
theorem selectWave_spec (settings : Settings) (left : List Ticket) :
    selectWave settings left <+: left ∧ (selectWave settings left).length ≤ settings.maxWorkers ∧
      settings.fitsCapacity (plansOf (selectWave settings left)) = true := by
  obtain ⟨chosen, same, inside⟩ :=
    selectFitting_begins settings [] (left.take settings.maxWorkers)
  have wave : selectWave settings left = chosen := by simpa [selectWave] using same
  refine ⟨?_, ?_, ?_⟩
  · rw [wave]
    exact inside.trans ( take_prefix _ _)
  · rw [wave]
    exact inside.length_le.trans (by simp)
  · exact selectFitting_fits settings (by simp [Settings.fitsCapacity, Settings.waveFits, plansOf,
      executors]) _

def waves (settings : Settings) (left : List Ticket) : List (List Ticket) :=
  if _progress : 0 < (selectWave settings left).length ∧ left ≠ [] then
    selectWave settings left :: waves settings (left.drop (selectWave settings left).length)
  else []
termination_by left.length
decreasing_by
  have := length_pos_of_ne_nil _progress.2
  rw [length_drop]
  omega

def Validated (settings : Settings) (tickets : List Ticket) : Prop :=
  ∀ ticket ∈ tickets, settings.validResources ticket.plan.task.resources = true

section

variable {settings : Settings} {left : List Ticket} (valid : Validated settings left)
include valid

theorem selectWave_ne_nil (more : left ≠ []) : selectWave settings left ≠ [] := by
  obtain ⟨ticket, rest, rfl⟩ := exists_cons_of_ne_nil more
  have fits : settings.fitsCapacity (plansOf ([] ++ [ticket])) = true :=
    fitsCapacity_singleton (valid ticket mem_cons_self)
  obtain ⟨limit, workers⟩ := Nat.exists_eq_succ_of_ne_zero
    (Nat.one_le_iff_ne_zero.mp settings.maxWorkers_pos)
  unfold selectWave
  rw [workers, take_succ_cons]
  unfold selectFitting
  rw [if_pos fits]
  obtain ⟨chosen, same, -⟩ := selectFitting_begins settings ([] ++ [ticket]) (rest.take limit)
  rw [same]
  simp

theorem waves_eq_cons (more : left ≠ []) : waves settings left = selectWave settings left
        :: waves settings (left.drop (selectWave settings left).length) := by
  rw [waves, dif_pos ⟨List.length_pos_of_ne_nil (selectWave_ne_nil valid more), more⟩]

theorem waves_flatten : (waves settings left).flatten = left := by
  induction left using waves.induct settings with
  | case1 left progress ih =>
    have taken := prefix_iff_eq_take.mp (selectWave_spec settings left).1
    rw [waves_eq_cons valid progress.2, flatten_cons,
      ih fun ticket mem => valid ticket (mem_of_mem_drop mem)]
    calc selectWave settings left ++ left.drop (selectWave settings left).length
        = left.take (selectWave settings left).length
          ++ left.drop (selectWave settings left).length := by rw [← taken]
      _ = left := take_append_drop _ _
  | case2 left stuck =>
    by_cases more : left = []
    · subst more
      rw [waves, dif_neg stuck]
      rfl
    · exact absurd ⟨List.length_pos_of_ne_nil (selectWave_ne_nil valid more), more⟩ stuck

end

/-- Each wave holds some plans, at most `maxWorkers`, that fit the empty executors together. -/
theorem waves_fit (settings : Settings) (left : List Ticket) :
    ∀ wave ∈ waves settings left, wave ≠ [] ∧ wave.length ≤ settings.maxWorkers ∧
      settings.fitsCapacity (plansOf wave) = true := by
  induction left using waves.induct settings with
  | case1 left progress ih =>
    rw [waves, dif_pos progress]
    intro wave mem
    rcases mem_cons.mp mem with rfl | later
    · exact ⟨List.ne_nil_of_length_pos progress.1, (selectWave_spec settings left).2⟩
    · exact ih wave later
  | case2 left stuck =>
    rw [waves, dif_neg stuck]
    simp

/-! ### Steps -/

namespace Call

def tickets (call : Call) : List Ticket :=
  call.plans.zipIdx.map fun plan => ⟨call.number, plan.2, plan.1⟩

/-- `wave_hooks`. -/
def waved (settings : Settings) (call : Call) : Bool :=
  settings.policy == .terminalWaves || call.plans.head?.any fun plan =>
      (settings.backends plan.task.benchmark).any (·.admitsGroups)

/-- `selected` of the loop over the waves. -/
def selected (settings : Settings) (call : Call) (offset : ℕ) : List Ticket :=
  selectWave settings (call.tickets.drop offset)

def owned (call : Call) : Bool :=
  match call.phase with
  | .running _ => true
  | _ => false

/-- The coroutines of a `collect`. -/
def collect (call : Call) (tickets : List Ticket) : Call :=
  { call with jobs := tickets.map fun ticket => ⟨ticket, .acquiring⟩ }

end Call

def Job.result? (job : Job) : Option EpisodeResult :=
  match job.state with
  | .finished result => some result
  | _ => none

/-- The results of a `collect`, in the order of its plans. -/
def Call.observed (call : Call) : List EpisodeResult := call.jobs.filterMap Job.result?

/-- All coroutines of a `collect` have returned. -/
def Call.gathered (call : Call) : Bool := call.jobs.all fun job => job.result?.isSome

/-- `notify_all` reaches a job that waits on the condition. -/
def Job.notify (job : Job) : Job :=
  match job.state with
  | .reserving _ => { job with state := .reserving true }
  | _ => job

/-- `notify_all` reaches a call. -/
def Call.notify (call : Call) : Call :=
  { call with
    jobs := call.jobs.map Job.notify
    phase := match call.phase with
      | .reserving offset _ => .reserving offset true
      | phase => phase }

/-- `dict | {key: value}`. -/
def Mapping.put (entries : Mapping) (key : String) (value : Value) : Mapping :=
  if entries.any fun entry => entry.1 = key then
    entries.map fun entry => if entry.1 = key then (key, value) else entry
  else entries ++ [(key, value)]

/-- A record as a value; `None` is the null value. -/
def Value.ofRecord : Option Mapping → Value
  | none => .null
  | some entries => .mapping entries

/-- A result of a wave whose closure is not proven. -/
def EpisodeResult.unclosed (closure : Option Mapping) (result : EpisodeResult) : EpisodeResult :=
  { result with
    cleanupState := "unknown"
    scoreEligible := false
    requestState := some [("state", .text "group_closure_unknown"),
      ("original", .ofRecord result.requestState), ("closure", .ofRecord closure)]
    nativeOutcome := Mapping.put result.nativeOutcome "group_closure" (.ofRecord closure) }

namespace Stream

def put (stream : Stream) (call : Call) : Stream :=
  { stream with calls := stream.calls.set call.number call }

/-- `notify_all`. -/
def notifyAll (stream : Stream) : Stream :=
  { stream with calls := stream.calls.map Call.notify }

/-- `_stream_token.cancel`. -/
def cancelToken (stream : Stream) (reason : String) : Stream :=
  { stream with token := stream.token.cancel reason }

/-- The checks of the plans of a new call; the owners met before a failing check stay recorded. -/
def checkPlans (settings : Settings) :
    List EpisodePlan → List (String × Backend) → List (String × Backend) × Option String
  | [], owners => (owners, none)
  | plan :: rest, owners =>
    match checkPlan settings (fun _ => "") owners plan with
    | .error message => (owners, some message)
    | .ok next => checkPlans settings rest next

/-- `execute_stream_group` up to the creation of its task. -/
def submit (settings : Settings) (stream : Stream) (plans : List EpisodePlan) (sequence : ℤ) :
    Stream × Except String Unit :=
  if stream.closed ∨ stream.paused then (stream, .error "stream admission is unavailable")
  else if sequence ≤ stream.sequence ∨ plans = [] ∨ ¬ (plans.map (·.identity)).Nodup ∨
      (plans.map (·.group)).eraseDups.length ≠ 1 then
    (stream, .error "stream requires a new monotonic sequence and one unique complete group")
  else if (plans.map (·.identity.runId)).eraseDups.length ≠ 1 ∨
      ¬ (stream.runId = none ∨ stream.runId = plans.head?.map (·.identity.runId)) then
    (stream, .error "a stream cannot combine run identities")
  else if stream.pendingLimit < stream.pending + plans.length then
    (stream, .error "bounded stream input credit exhausted")
  else
    match checkPlans settings plans stream.stageOwners with
    | (owners, some message) => ({ stream with stageOwners := owners }, .error message)
    | (owners, none) =>
      ({ stream with
        stageOwners := owners
        sequence := sequence
        runId := plans.head?.map (·.identity.runId)
        pending := stream.pending + plans.length
        calls := stream.calls ++ [{
          number := stream.calls.length
          plans := plans
          phase := .queued
          jobs := []
          results := []
          admitted := []
          returned := false }] }, .ok ())

/-- The `group()` coroutine ends and gives its slot back. -/
def leave (stream : Stream) (call : Call) (outcome : Except String (List EpisodeResult)) : Stream :=
  { stream with groups := stream.groups + 1 }.put { call with phase := .done outcome }

/-- The `group()` coroutine has its slot. -/
def enterGroup (settings : Settings) (stream : Stream) (call : Call) : Stream :=
  let entered := { stream with groups := stream.groups - 1 }
  if (call.plans.map (·.task.benchmark)).eraseDups.length ≠ 1 then
    entered.leave call (.error "one streamed semantic group requires one backend")
  else if call.waved settings then entered.put { call with phase := .waves 0 }
  else entered.put ({ call with phase := .collecting }.collect call.tickets)

def reserveWave (settings : Settings) (stream : Stream) (call : Call) (offset : ℕ) : Stream :=
  let selected := call.selected settings offset
  if stream.token.cancelled then stream.put { call with phase := .waves offset }
  else if settings.waveFits stream.ledger.reserved (plansOf selected) then
    { stream with ledger := selected.foldl (charge Ticket.demand) stream.ledger }.put
      { call with phase := .admitting offset, admitted := call.admitted ++ [selected] }
  else stream.put { call with phase := .reserving offset false }

def nextWave (settings : Settings) (stream : Stream) (call : Call) (offset : ℕ) : Stream :=
  if call.plans.length ≤ offset then stream.leave call (.ok call.results)
  else if stream.token.cancelled then
    stream.leave call (.ok (call.results ++ (call.plans.drop offset).map fun plan =>
      notAdmitted plan (orText stream.token.reason "cancelled")))
  else if call.selected settings offset = [] then
    stream.leave call (.error "one streamed episode exceeds physical wave capacity")
  else stream.reserveWave settings call offset

def settleWave (settings : Settings) (stream : Stream) (call : Call) (offset : ℕ)
    (observed : List EpisodeResult) (closure : Option Mapping) : Stream :=
  let selected := call.selected settings offset
  let safe := observed.all safe && !requestUncertain closure
  let settled : Call := { call with
    phase := .waves (offset + selected.length)
    jobs := []
    results := call.results ++
      if safe then observed else observed.map (unclosed closure) }
  if safe then
    ({ stream with
      ledger := selected.foldl (release Ticket.demand) stream.ledger }.put settled).notifyAll
  else
    ({ stream with
      ledger := selected.foldl (quarantine Ticket.demand) stream.ledger
      token := stream.token.cancel "stream_group_closure_unproven" }.put settled).notifyAll

/-- After `admit_group`. -/
def afterAdmit (settings : Settings) (stream : Stream) (call : Call) (offset : ℕ) : HookOutcome → Stream
  | .returned _ =>
    stream.put ({ call with phase := .running offset }.collect (call.selected settings offset))
  | failure =>
    (stream.cancelToken "stream_group_admission_failure").settleWave settings call offset
      ((plansOf (call.selected settings offset)).map fun plan =>
        unresolved plan ("group admission: " ++ failure.errorType)) (Run.closureOf failure)

/-- `group()` and its waiter up to the next suspension. -/
def advance (settings : Settings) (stream : Stream) (call : Call) : Option Stream :=
  match call.phase with
  | .queued => if 0 < stream.groups then some (stream.enterGroup settings call) else none
  | .collecting => if call.gathered then some (stream.leave call (.ok call.observed)) else none
  | .waves offset => some (stream.nextWave settings call offset)
  | .reserving offset notified =>
    if notified then some (stream.reserveWave settings call offset) else none
  | .running offset =>
    if call.gathered then some (stream.put { call with phase := .finishing offset }) else none
  | .done _ =>
    if call.returned then none
    else some ({ stream with pending := stream.pending - call.plans.length }.put
      { call with returned := true })
  | .admitting _ | .finishing _ => none

/-- The awaited hook of a `group()` ends. -/
def hook (settings : Settings) (stream : Stream) (call : Call) (outcome : HookOutcome) : Option Stream :=
  match call.phase with
  | .admitting offset => some (stream.afterAdmit settings call offset outcome)
  | .finishing offset =>
    some (stream.settleWave settings call offset call.observed (Run.closureOf outcome))
  | _ => none

def putJob (stream : Stream) (call : Call) (position : ℕ) (job : Job) (state : JobState) : Stream :=
  stream.put { call with jobs := call.jobs.set position { job with state := state } }

def refuse (stream : Stream) (call : Call) (position : ℕ) (job : Job) : Stream :=
  { stream with workers := stream.workers + 1 }.putJob call position job
    (.finished (notAdmitted job.ticket.plan "stream admission stopped"))

/-- `execute` with its worker slot, up to its next suspension. -/
def attempt (settings : Settings) (stream : Stream) (call : Call) (position : ℕ) (job : Job) :
    Stream :=
  if stream.token.cancelled then stream.refuse call position job
  else if call.owned then stream.putJob call position job .running
  else if settings.fits stream.ledger.reserved job.ticket.plan.task.resources then
    { stream with ledger := stream.ledger.charge Ticket.demand job.ticket }.putJob
      { call with admitted := call.admitted ++ [[job.ticket]] } position job .running
  else stream.putJob call position job (.reserving false)

/-- An `execute` coroutine goes on. -/
def work (settings : Settings) (stream : Stream) (call : Call) (position : ℕ) (job : Job) :
    Option Stream :=
  match job.state with
  | .acquiring =>
    if 0 < stream.workers then
      some ({ stream with workers := stream.workers - 1 }.attempt settings call position job)
    else none
  | .reserving true => some (stream.attempt settings call position job)
  | _ => none

/-- What a result says about the rest of the stream. -/
def judge (token : CancellationToken) (result : EpisodeResult) : CancellationToken :=
  let cleaned := if result.safe then token else token.cancel "stream_cleanup_or_request_unproven"
  let sound := if result.infrastructure then cleaned.cancel "stream_infrastructure_failure"
    else cleaned
  if result.verificationState = "review_required" then
    sound.cancel "stream_verifier_review_required"
  else sound

def finish (stream : Stream) (call : Call) (position : ℕ) (job : Job) (result : EpisodeResult) :
    Stream :=
  ({ stream with
    ledger := if call.owned then stream.ledger
      else if result.safe then stream.ledger.release Ticket.demand job.ticket
      else stream.ledger.quarantine Ticket.demand job.ticket
    token := judge stream.token result
    workers := stream.workers + 1 }.putJob call position job (.finished result)).notifyAll

def withJob (stream : Stream) (number position : ℕ) (act : Call → Job → Option Stream) : Option Stream :=
  stream.calls[number]?.bind fun call => call.jobs[position]?.bind fun job => act call job

def step (settings : Settings) (stream : Stream) : StreamAction → Option Stream
  | .submit plans sequence => some (stream.submit settings plans sequence).1
  | .advance number => stream.calls[number]?.bind (stream.advance settings)
  | .hook number outcome => stream.calls[number]?.bind (stream.hook settings · outcome)
  | .work number position =>
    stream.withJob number position fun call job => stream.work settings call position job
  | .complete number position outcome =>
    stream.withJob number position fun call job =>
      match job.state with
      | .running =>
        some (stream.finish call position job (execute job.ticket.plan outcome))
      | _ => none
  | .interrupt number => stream.calls[number]?.bind fun call =>
    if call.returned then none else some (stream.cancelToken "stream_waiter_cancelled")
  | .cancel reason => some { stream with token := ⟨true, stream.token.reason <|> reason⟩ }
  | .pause => some { stream with paused := true }.notifyAll
  | .resume =>
    if stream.closed ∨ stream.token.cancelled then none else some { stream with paused := false }
  | .close =>
    if stream.paused ∧ stream.calls.all (·.returned) then some { stream with closed := true }
    else none

/-- A stream that `open_stream` has opened. -/
def opened (settings : Settings) (pendingLimit : ℕ) (token : CancellationToken) : Stream where
  pendingLimit := pendingLimit
  pending := 0
  workers := settings.maxWorkers
  groups := settings.maxGroups
  stageOwners := []
  paused := false
  closed := false
  sequence := -1
  runId := none
  token := token
  ledger := empty
  calls := []

end Stream

def streamSystem (settings : Settings) (pendingLimit : ℕ) : System Stream StreamAction where
  initial stream := ∃ token, stream = Stream.opened settings pendingLimit token
  step := Stream.step settings

/-! ### What the pieces do -/

/-- What the checks of a new call establish. -/
structure Acceptable (settings : Settings) (plans : List EpisodePlan) : Prop where
  nonempty : plans ≠ []
  distinct : (plans.map (·.identity)).Nodup
  oneGroup : ∀ plan ∈ plans, ∀ other ∈ plans, plan.group = other.group
  resources : ∀ plan ∈ plans, settings.validResources plan.task.resources = true

theorem eq_of_eraseDups_length {α : Type} [BEq α] [LawfulBEq α] {list : List α}
    (one : list.eraseDups.length = 1) : ∀ first ∈ list, ∀ second ∈ list, first = second := by
  obtain ⟨value, same⟩ := length_eq_one_iff.mp one
  intro first here second there
  rw [← mem_eraseDups, same, mem_singleton] at here there
  exact here.trans there.symm

namespace Stream

variable {settings : Settings} {stream : Stream}

theorem checkPlans_valid {plans : List EpisodePlan} {owners next : List (String × Backend)}
    (checked : checkPlans settings plans owners = (next, none)) :
    ∀ plan ∈ plans, settings.validResources plan.task.resources = true := by
  induction plans generalizing owners with
  | nil => simp
  | cons plan rest ih =>
    unfold checkPlans at checked
    split at checked
    · cases checked
    · rename_i here
      intro other mem
      rcases mem_cons.mp mem with rfl | later
      · exact checkPlan_valid here
      · exact ih checked other later

/-- A new call is refused, which changes the table of stage owners at most, or it is acceptable and
waits for a group slot. -/
theorem submit_cases (settings : Settings) (stream : Stream) (plans : List EpisodePlan) (sequence : ℤ) :
    (∃ owners, (stream.submit settings plans sequence).1 = { stream with stageOwners := owners }) ∨
      (Acceptable settings plans ∧ stream.pending + plans.length ≤ stream.pendingLimit ∧
        ∃ owners runId, (stream.submit settings plans sequence).1 = { stream with
          stageOwners := owners
          sequence := sequence
          runId := runId
          pending := stream.pending + plans.length
          calls := stream.calls ++ [{
            number := stream.calls.length
            plans := plans
            phase := .queued
            jobs := []
            results := []
            admitted := []
            returned := false }] }) := by
  unfold submit
  split_ifs with available shape run credit
  · exact Or.inl ⟨stream.stageOwners, rfl⟩
  · exact Or.inl ⟨stream.stageOwners, rfl⟩
  · exact Or.inl ⟨stream.stageOwners, rfl⟩
  · exact Or.inl ⟨stream.stageOwners, rfl⟩
  · split
    · exact Or.inl ⟨_, rfl⟩
    · rename_i owners checked
      push Not at shape
      obtain ⟨-, nonempty, distinct, oneGroup⟩ := shape
      refine Or.inr ⟨⟨nonempty, distinct, ?_, checkPlans_valid checked⟩, not_lt.mp credit, _, _, rfl⟩
      intro plan here other there
      exact eq_of_eraseDups_length oneGroup _ (mem_map_of_mem here) _ (mem_map_of_mem there)

inductive Moves (settings : Settings) (stream : Stream) : StreamAction → Stream → Prop
  | submit {plans : List EpisodePlan} {sequence : ℤ} :
      Moves settings stream (.submit plans sequence) (stream.submit settings plans sequence).1
  | enter {number : ℕ} {call : Call} (found : stream.calls[number]? = some call)
      (phase : call.phase = .queued) (free : 0 < stream.groups) :
      Moves settings stream (.advance number) (stream.enterGroup settings call)
  | collected {number : ℕ} {call : Call} (found : stream.calls[number]? = some call)
      (phase : call.phase = .collecting) (gathered : call.gathered = true) :
      Moves settings stream (.advance number) (stream.leave call (.ok call.observed))
  | next {number offset : ℕ} {call : Call} (found : stream.calls[number]? = some call)
      (phase : call.phase = .waves offset) :
      Moves settings stream (.advance number) (stream.nextWave settings call offset)
  | reserve {number offset : ℕ} {call : Call} (found : stream.calls[number]? = some call)
      (phase : call.phase = .reserving offset true) :
      Moves settings stream (.advance number) (stream.reserveWave settings call offset)
  | gathered {number offset : ℕ} {call : Call} (found : stream.calls[number]? = some call)
      (phase : call.phase = .running offset) (gathered : call.gathered = true) :
      Moves settings stream (.advance number) (stream.put { call with phase := .finishing offset })
  | returned {number : ℕ} {call : Call} {outcome : Except String (List EpisodeResult)}
      (found : stream.calls[number]? = some call) (phase : call.phase = .done outcome)
      (waits : call.returned = false) :
      Moves settings stream (.advance number)
        ({ stream with pending := stream.pending - call.plans.length }.put { call with returned := true })
  | admitted {number offset : ℕ} {call : Call} {outcome : HookOutcome}
      (found : stream.calls[number]? = some call) (phase : call.phase = .admitting offset) :
      Moves settings stream (.hook number outcome) (stream.afterAdmit settings call offset outcome)
  | closed {number offset : ℕ} {call : Call} {outcome : HookOutcome}
      (found : stream.calls[number]? = some call) (phase : call.phase = .finishing offset) :
      Moves settings stream (.hook number outcome)
        (stream.settleWave settings call offset call.observed (Run.closureOf outcome))
  | acquire {number position : ℕ} {call : Call} {job : Job}
      (found : stream.calls[number]? = some call) (there : call.jobs[position]? = some job)
      (state : job.state = .acquiring) (free : 0 < stream.workers) :
      Moves settings stream (.work number position)
        ({ stream with workers := stream.workers - 1 }.attempt settings call position job)
  | retry {number position : ℕ} {call : Call} {job : Job}
      (found : stream.calls[number]? = some call) (there : call.jobs[position]? = some job)
      (state : job.state = .reserving true) :
      Moves settings stream (.work number position) (stream.attempt settings call position job)
  | complete {number position : ℕ} {call : Call} {job : Job} {outcome : Outcome}
      (found : stream.calls[number]? = some call) (there : call.jobs[position]? = some job)
      (state : job.state = .running) :
      Moves settings stream (.complete number position outcome)
        (stream.finish call position job (execute job.ticket.plan outcome))
  | interrupt {number : ℕ} {call : Call} (found : stream.calls[number]? = some call)
      (waits : call.returned = false) :
      Moves settings stream (.interrupt number) (stream.cancelToken "stream_waiter_cancelled")
  | cancel {reason : Option String} :
      Moves settings stream (.cancel reason)
        { stream with token := ⟨true, stream.token.reason <|> reason⟩ }
  | pause : Moves settings stream .pause { stream with paused := true }.notifyAll
  | resume : Moves settings stream .resume { stream with paused := false }
  | close : Moves settings stream .close { stream with closed := true }

theorem step_moves {next : Stream} {action : StreamAction}
    (stepped : stream.step settings action = some next) : Moves settings stream action next := by
  cases action with
  | submit plans sequence =>
    cases stepped
    exact .submit
  | advance number =>
    obtain ⟨call, found, advanced⟩ := bind_eq_some_iff.mp stepped
    unfold advance at advanced
    split at advanced
    case h_1 phase =>
      split_ifs at advanced with free
      cases advanced
      exact .enter found phase free
    case h_2 phase =>
      split_ifs at advanced with gathered
      cases advanced
      exact .collected found phase gathered
    case h_3 offset phase =>
      cases advanced
      exact .next found phase
    case h_4 offset notified phase =>
      split_ifs at advanced with awake
      subst awake
      cases advanced
      exact .reserve found phase
    case h_5 offset phase =>
      split_ifs at advanced with gathered
      cases advanced
      exact .gathered found phase gathered
    case h_6 outcome phase =>
      split_ifs at advanced with gone
      cases advanced
      exact .returned found phase (by simpa using gone)
    case h_7 | h_8 => cases advanced
  | hook number outcome =>
    obtain ⟨call, found, hooked⟩ := bind_eq_some_iff.mp stepped
    unfold hook at hooked
    split at hooked
    case h_1 offset phase =>
      cases hooked
      exact .admitted found phase
    case h_2 offset phase =>
      cases hooked
      exact .closed found phase
    case h_3 => cases hooked
  | work number position =>
    obtain ⟨call, found, rest⟩ := bind_eq_some_iff.mp stepped
    obtain ⟨job, there, worked⟩ := bind_eq_some_iff.mp rest
    simp only [work] at worked
    split at worked
    case h_1 state =>
      split_ifs at worked with free
      cases worked
      exact .acquire found there state free
    case h_2 state =>
      cases worked
      exact .retry found there state
    case h_3 => cases worked
  | complete number position outcome =>
    obtain ⟨call, found, rest⟩ := bind_eq_some_iff.mp stepped
    obtain ⟨job, there, ended⟩ := bind_eq_some_iff.mp rest
    simp only at ended
    split at ended
    case h_1 state =>
      cases ended
      exact .complete found there state
    case h_2 => cases ended
  | interrupt number =>
    obtain ⟨call, found, cancelled⟩ := bind_eq_some_iff.mp stepped
    split_ifs at cancelled with gone
    cases cancelled
    exact .interrupt found (by simpa using gone)
  | cancel reason =>
    cases stepped
    exact .cancel
  | pause =>
    cases stepped
    exact .pause
  | resume =>
    simp only [step] at stepped
    split_ifs at stepped
    cases stepped
    exact .resume
  | close =>
    simp only [step] at stepped
    split_ifs at stepped
    cases stepped
    exact .close

theorem reserveWave_pendingLimit (call : Call) (offset : ℕ) :
    (stream.reserveWave settings call offset).pendingLimit = stream.pendingLimit := by
  unfold reserveWave
  dsimp only
  split_ifs <;> rfl

theorem settleWave_pendingLimit (call : Call) (offset : ℕ) (observed : List EpisodeResult)
    (closure : Option Mapping) :
    (stream.settleWave settings call offset observed closure).pendingLimit = stream.pendingLimit := by
  unfold settleWave
  dsimp only
  split_ifs <;> rfl

/-- The bound on pending samples is that of the opening. -/
theorem step_pendingLimit {next : Stream} {action : StreamAction}
    (stepped : stream.step settings action = some next) :
    next.pendingLimit = stream.pendingLimit := by
  cases step_moves stepped with
  | submit =>
    rename_i plans sequence
    rcases submit_cases settings stream plans sequence with ⟨_, same⟩ | ⟨-, -, _, _, same⟩ <;>
      rw [same]
  | enter =>
    unfold enterGroup
    split_ifs <;> rfl
  | next =>
    unfold nextWave
    split_ifs
    · rfl
    · rfl
    · rfl
    · exact reserveWave_pendingLimit _ _
  | reserve => exact reserveWave_pendingLimit _ _
  | admitted =>
    unfold afterAdmit
    split
    · rfl
    · exact settleWave_pendingLimit _ _ _ _
  | closed => exact settleWave_pendingLimit _ _ _ _
  | acquire | retry =>
    unfold attempt
    split_ifs <;> rfl
  | collected | gathered | returned | complete | interrupt | cancel | pause | resume | close => rfl

end Stream

end TinyDSV41.Coordinator
