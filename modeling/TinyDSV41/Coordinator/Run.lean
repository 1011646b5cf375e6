/-
**`Coordinator.run` as a transition system.**

The coroutine is cut at its suspension points. Between two of them it runs alone on the event loop,
so each step of the model is what it computes from one suspension to the next; the token may be
cancelled by another thread at any time and is therefore read in one step only once. What the
environment decides is an action: the readings of the clock, the outcomes of hooks and of the
backends' `execute`, which finished tasks `asyncio.wait` reports and in which order, and every
cancellation.

* `Run` — the local variables of the coroutine, with `handed` (the plans given to a backend) and
  `outcomes` (what the tasks have done) as history.
* `Run.step` — one step; `runSystem` the runs of a validated list of plans.
* `admitNative_induction` — the admission loop is a sequence of single admissions.

An event store that fails is not modelled, nor a hook that returns something other than a mapping or
`None`.
-/

import TinyDSV41.Coordinator.Basic
import TinyDSV41.Lib.Transition
import Mathlib.Data.List.FinRange

namespace TinyDSV41.Coordinator

open List Lib

/-! ### Validation -/

def planAt (plans : List EpisodePlan) (index : Fin plans.length) : EpisodePlan := plans.get index

def indicesOf (plans : List EpisodePlan) (group : GroupKey) : List (Fin plans.length) :=
  (finRange plans.length).filter fun index => (planAt plans index).group = group

/-- The checks of `run` before anything starts. -/
def validate (settings : Settings) (plans : List EpisodePlan) : Except String Unit :=
  if ¬ (plans.map (·.identity)).Nodup then .error "duplicate episode identities"
  else if 1 < (plans.map (·.identity.runId)).eraseDups.length then
    .error "one coordinator cannot combine run identities"
  else match plans.foldlM (checkPlan settings (": " ++ ·)) [] with
    | .error message => .error message
    | .ok _ =>
      if settings.policy = .terminalWaves ∧ ∃ plan ∈ plans,
          settings.maxWorkers < (indicesOf plans plan.group).length ∨
            settings.waveFits (fun _ => 0) ((indicesOf plans plan.group).map (planAt plans)) = false then
        .error "terminal wave exceeds worker or executor capacity"
      else .ok ()

/-! ### State -/

/-- Python's `or` on an optional text: an empty text is false. -/
def orText (first : Option String) (second : String) : String :=
  match first with
  | some text => if text = "" then second else text
  | none => second

/-- Where the coroutine is suspended, or what it does next. -/
inductive Place (plans : List EpisodePlan)
  | starting (benchmarks : List Benchmark)
  | startHook (benchmarks : List Benchmark)
  | top
  | admitHook (group : GroupKey)
  | waiting
  | draining (done : List (Fin plans.length))
  | finishHook (index : Fin plans.length) (done : List (Fin plans.length))
  | closing (backends : List Backend)
  | returned (ordered : Option (List EpisodeResult))

/-- The variables of a run. `ordered` is `none` where the source would raise a `KeyError`. -/
structure Run (plans : List EpisodePlan) where
  place : Place plans
  token : CancellationToken
  pending : List (Fin plans.length)
  active : List (Fin plans.length)
  results : Fin plans.length → Option EpisodeResult
  completed : GroupKey → ℕ
  held : List GroupKey
  stopped : Option String
  drainDeadline : Option ℚ
  started : List Backend
  ledger : Ledger (Fin plans.length) Account ℚ
  drainingTasks : ℕ
  lifecycleFailures : List String
  handed : List (Fin plans.length)
  outcomes : Fin plans.length → Option Outcome

/-- What a lifecycle hook does in the end. -/
inductive HookOutcome
  | returned (closure : Option Mapping)
  | raised (text : String)
  | cancelled

/-- What `_close_backend` finds. -/
inductive CloseOutcome
  | closed
  | raised (text : String)
  | cancelled
  | timedOut

/-- One step of the coroutine or of its environment. -/
inductive RunAction (plans : List EpisodePlan)
  /-- The coroutine goes on; it may read the clock twice. -/
  | proceed (now later : ℚ)
  /-- The awaited hook ends. -/
  | hook (outcome : HookOutcome) (later : ℚ)
  /-- `asyncio.wait` returns the finished tasks, in the order the set is iterated; none of them when
  its timeout has passed. -/
  | wake (done : List (Fin plans.length))
  /-- The awaiting task is cancelled. -/
  | interrupt
  | closed (outcome : CloseOutcome)
  /-- A task ends. -/
  | complete (index : Fin plans.length) (outcome : Outcome)
  /-- Another holder of the token cancels it, or sets its event without a reason. -/
  | cancel (reason : Option String)

def demandOf (plans : List EpisodePlan) (index : Fin plans.length) : Account → ℚ :=
  (planAt plans index).task.resources.demand

def expected (plans : List EpisodePlan) (group : GroupKey) : ℕ := (indicesOf plans group).length

namespace Run

variable {plans : List EpisodePlan}

/-- `_charge(…, -1)`. -/
def release (run : Run plans) (index : Fin plans.length) : Run plans :=
  { run with ledger := run.ledger.release (demandOf plans) index }

/-- `_quarantine`. -/
def quarantine (run : Run plans) (index : Fin plans.length) : Run plans :=
  { run with ledger := run.ledger.quarantine (demandOf plans) index }

/-- `token.cancel`. -/
def cancelToken (run : Run plans) (reason : String) : Run plans :=
  { run with token := run.token.cancel reason }

/-- `stopped = stopped or reason`. -/
def stop (run : Run plans) (reason : String) : Run plans :=
  { run with stopped := some (orText run.stopped reason) }

/-- One plan is charged, leaves `pending` and is handed to its backend. -/
def admitPlan (run : Run plans) (index : Fin plans.length) : Run plans :=
  { run with
    ledger := run.ledger.charge (demandOf plans) index
    pending := run.pending.erase index
    active := run.active ++ [index]
    handed := run.handed ++ [index] }

def hold (run : Run plans) (group : GroupKey) : Run plans :=
  { run with held := run.held.insert group }

def admitNative (settings : Settings) : List (Fin plans.length) → List String → Run plans → Run plans
  | [], _, run => run
  | index :: rest, blocked, run =>
    if settings.maxWorkers ≤ run.active.length then run
    else if (planAt plans index).group ∉ run.held ∧ settings.maxGroups ≤ run.held.length then
      admitNative settings rest blocked run
    else if (planAt plans index).task.resources.executor ∈ blocked then
      admitNative settings rest blocked run
    else if settings.fits run.ledger.reserved (planAt plans index).task.resources = false then
      admitNative settings rest ((planAt plans index).task.resources.executor :: blocked) run
    else
      admitNative settings rest blocked ((run.admitPlan index).hold (planAt plans index).group)

/-- The start of `finally`: what is still active is unresolved and its resources are lost, then the
backends close unless some worker has not drained. -/
def finish (run : Run plans) : Run plans :=
  let reason := orText run.stopped "coordinator_infrastructure_failure"
  let drainingTasks := run.drainingTasks + run.active.length
  { run with
    token := if run.active = [] then run.token else run.token.cancel reason
    results := fun index => if index ∈ run.active then some (unresolved (planAt plans index) reason)
      else run.results index
    ledger := run.active.foldl (Ledger.quarantine (demandOf plans)) run.ledger
    drainingTasks := drainingTasks
    place := .closing (if drainingTasks = 0 then run.started.reverse else []) }

/-- The drain deadline has passed: the active plans are unresolved and their resources lost. -/
def expire (settings : Settings) (run : Run plans) : Run plans :=
  let lost := if settings.policy = .nativeGroups then run.active
    else run.held.flatMap (indicesOf plans)
  { run with
    results := fun index => if index ∈ run.active then
        some (unresolved (planAt plans index) "drain_timeout; worker termination remains unproven")
      else run.results index
    ledger := lost.foldl (Ledger.quarantine (demandOf plans)) run.ledger
    drainingTasks := run.drainingTasks + run.active.length
    active := [] }

/-- The end of the loop body: nothing active, the deadline passed, or `asyncio.wait`. -/
def await (settings : Settings) (run : Run plans) (later : ℚ) : Run plans :=
  if run.active = [] then run.finish
  else match run.drainDeadline with
    | some deadline =>
      if deadline ≤ later then (run.expire settings).finish else { run with place := .waiting }
    | none => { run with place := .waiting }

def observe (settings : Settings) (run : Run plans) (now : ℚ) : Run plans :=
  if run.token.cancelled then
    { run with
      stopped := some (orText run.stopped (orText run.token.reason "cancelled"))
      -- The clock is positive, so a deadline that is set is true.
      drainDeadline := some (run.drainDeadline.getD (now + settings.drainTimeout)) }
  else run

/-- The loop body from its top to the next suspension. -/
def iterate (settings : Settings) (run : Run plans) (now later : ℚ) : Run plans :=
  if run.pending = [] ∧ run.active = [] then run.finish
  else
    let observed := run.observe settings now
    match observed.stopped, settings.policy, observed.pending with
    | none, .nativeGroups, _ =>
      (admitNative settings observed.pending [] observed).await settings later
    | none, .terminalWaves, index :: _ =>
      if observed.held = [] then { observed with place := .admitHook (planAt plans index).group }
      else observed.await settings later
    | _, _, _ => observed.await settings later

def admitWave (run : Run plans) (group : GroupKey) : Run plans :=
  (indicesOf plans group).foldl admitPlan (run.hold group)

/-- After `admit_group`. -/
def afterAdmit (settings : Settings) (run : Run plans) (group : GroupKey) (later : ℚ) :
    HookOutcome → Run plans
  | .returned _ =>
    if run.token.cancelled then
      { run with stopped := some (orText run.token.reason "cancelled_during_group_admission") }.await
        settings later
    else (run.admitWave group).await settings later
  | .raised text =>
    { run with stopped := some ("group_admission_failure:" ++ text) }.await settings later
  | .cancelled =>
    let cancelled := run.cancelToken "coordinator_cancelled_during_lifecycle"
    { cancelled with stopped := cancelled.token.reason }.finish

/-- What a result says about the rest of the run. -/
def judge (run : Run plans) (result : EpisodeResult) : Run plans :=
  let first := if result.infrastructure then run.stop "infrastructure_failure" else run
  let second := if result.executionState = "not_admitted" then
      first.stop ((((result.nativeOutcome : Mapping).get "reason").getD
        (.text "backend_admission_stopped")).str)
    else first
  if result.verificationState = "review_required" then second.stop "verifier_review_required"
  else second

def account (settings : Settings) (run : Run plans) (index : Fin plans.length)
    (result : EpisodeResult) : Run plans :=
  if result.safe = false then
    let kept := if settings.policy = .nativeGroups then run.quarantine index else run
    let halted := kept.stop (if requestUncertain result.requestState then "uncertain_model_request"
      else "cleanup_unproven")
    halted.cancelToken (orText halted.stopped "")
  else if settings.policy = .nativeGroups then run.release index
  else run

/-- The body of `for task in done`, up to the closure of a complete group. -/
def process (settings : Settings) (run : Run plans) (index : Fin plans.length)
    (rest : List (Fin plans.length)) (result : EpisodeResult) : Run plans :=
  let group := (planAt plans index).group
  let popped := { run with
    active := run.active.erase index
    results := Function.update run.results index (some result) }
  let judged := (popped.account settings index result).judge result
  let counted := { judged with
    completed := Function.update judged.completed group (judged.completed group + 1) }
  if counted.completed group = expected plans group then
    match settings.policy with
    | .terminalWaves => { counted with place := .finishHook index rest }
    | .nativeGroups => { counted with held := counted.held.erase group, place := .draining rest }
  else { counted with place := .draining rest }

/-- What `finish_group` is taken to have returned. -/
def closureOf : HookOutcome → Option Mapping
  | .returned closure => closure
  | .raised text => some [("uncertain", .bool true), ("error_type", .text text)]
  | .cancelled => some [("uncertain", .bool true), ("error_type", .text "CancelledError")]

/-- After `finish_group`: the whole wave is released, or all of it is lost. -/
def afterFinish (run : Run plans) (index : Fin plans.length) (rest : List (Fin plans.length))
    (outcome : HookOutcome) : Run plans :=
  let group := (planAt plans index).group
  let interrupted := match outcome with
    | .cancelled => run.cancelToken "coordinator_cancelled_during_group_closure"
    | _ => run
  let safe := (indicesOf plans group).all (fun sibling =>
      (interrupted.results sibling).any EpisodeResult.safe) && !requestUncertain (closureOf outcome)
  let closed :=
    if safe then
      { interrupted with
        ledger := (indicesOf plans group).foldl (Ledger.release (demandOf plans)) interrupted.ledger }
    else
      let halted := { interrupted with
        ledger := (indicesOf plans group).foldl (Ledger.quarantine (demandOf plans))
          interrupted.ledger }.stop "group_closure_unproven"
      halted.cancelToken (orText halted.stopped "")
  { closed with held := closed.held.erase group, place := .draining rest }

def startNext (settings : Settings) (run : Run plans) : List Benchmark → Run plans
  | [] => { run with place := .top }
  | benchmark :: rest =>
    if run.token.cancelled then
      { run with stopped := some (orText run.token.reason "cancelled"), place := .top }
    else match settings.backends benchmark with
      | none => { run with place := .starting rest }
      | some backend =>
        if run.started.any (fun previous => previous.object = backend.object) then
          { run with place := .starting rest }
        else { run with started := run.started ++ [backend], place := .startHook rest }

/-- After a `start` hook. -/
def afterStart (run : Run plans) (rest : List Benchmark) : HookOutcome → Run plans
  | .returned _ => { run with place := .starting rest }
  | .raised text =>
    let failed := run.stop ("coordinator_infrastructure_failure:" ++ text)
    { failed with
      lifecycleFailures := failed.lifecycleFailures ++ [orText failed.stopped ""] }.finish
  | .cancelled =>
    let cancelled := run.cancelToken "coordinator_cancelled_during_lifecycle"
    { cancelled with stopped := cancelled.token.reason }.finish

/-- After one `_close_backend`. -/
def afterClose (run : Run plans) (rest : List Backend) (outcome : CloseOutcome) : Run plans :=
  let failure := match outcome with
    | .closed => none
    | .raised text => some ("backend_close_failure:" ++ text)
    | .cancelled => some "backend_close_cancelled; cleanup remains unproven"
    | .timedOut => some "backend_close_timeout; cleanup remains unproven"
  let noted := match failure with
    | none => run
    | some text => { run with lifecycleFailures := run.lifecycleFailures ++ [text] }.stop text
  { noted with
    drainingTasks := match outcome with
      | .timedOut => noted.drainingTasks + 1
      | _ => noted.drainingTasks
    place := .closing rest }

/-- The end of `finally`: pending plans were not admitted, and the results are put in order. -/
def settle (run : Run plans) : Run plans :=
  let stopped := if run.token.cancelled then
      some (orText run.stopped (orText run.token.reason "cancelled"))
    else run.stopped
  let results := fun index => if index ∈ run.pending then
      some (notAdmitted (planAt plans index) (orText stopped "not_admitted"))
    else run.results index
  { run with
    stopped := stopped
    results := results
    place := .returned ((finRange plans.length).mapM results) }

def step (settings : Settings) (run : Run plans) (action : RunAction plans) : Option (Run plans) :=
  match run.place, action with
  | .returned _, _ => none
  | _, .cancel reason =>
    some { run with token := ⟨true, run.token.reason <|> reason⟩ }
  | _, .complete index outcome =>
    if index ∈ run.handed ∧ (run.outcomes index).isNone then
      some { run with outcomes := Function.update run.outcomes index (some outcome) }
    else none
  | .starting benchmarks, .proceed _ _ => some (run.startNext settings benchmarks)
  | .startHook rest, .hook outcome _ => some (run.afterStart rest outcome)
  | .top, .proceed now later => some (run.iterate settings now later)
  | .admitHook group, .hook outcome later => some (run.afterAdmit settings group later outcome)
  | .waiting, .wake done =>
    if done.Nodup ∧ ∀ index, index ∈ done ↔ index ∈ run.active ∧ (run.outcomes index).isSome = true then
      some { run with place := .draining done }
    else none
  | .waiting, .interrupt =>
    some { (run.cancelToken "coordinator_cancelled") with place := .top }
  | .draining [], .proceed _ _ => some { run with place := .top }
  | .draining (index :: rest), .proceed _ _ =>
    (run.outcomes index).map fun outcome =>
      run.process settings index rest (execute (planAt plans index) outcome)
  | .finishHook index rest, .hook outcome _ => some (run.afterFinish index rest outcome)
  | .closing [], .proceed _ _ => some run.settle
  | .closing (_ :: rest), .closed outcome => some (run.afterClose rest outcome)
  | .closing (_ :: _), .interrupt =>
    some (run.cancelToken "coordinator_cancelled_during_close")
  | _, _ => none

def fresh (plans : List EpisodePlan) (token : CancellationToken) : Run plans where
  place := .starting (plans.map (·.task.benchmark)).eraseDups
  token := token
  pending := finRange plans.length
  active := []
  results _ := none
  completed _ := 0
  held := []
  stopped := none
  drainDeadline := none
  started := []
  ledger := Ledger.empty
  drainingTasks := 0
  lifecycleFailures := []
  handed := []
  outcomes _ := none

end Run

/-- A plan that has been handed out and is no longer active. -/
def ended {plans : List EpisodePlan} (handed active : List (Fin plans.length))
    (index : Fin plans.length) : Bool := decide (index ∈ handed ∧ index ∉ active)

/-! ### What the pieces do -/

/-- A result after which no further plan is admitted. -/
def EpisodeResult.stops (result : EpisodeResult) : Bool :=
  !result.safe || result.infrastructure || result.executionState == "not_admitted" ||
    result.verificationState == "review_required"

def ledgerAfter (settings : Settings) (plans : List EpisodePlan)
    (ledger : Ledger (Fin plans.length) Account ℚ) (index : Fin plans.length) (safe : Bool) :
    Ledger (Fin plans.length) Account ℚ :=
  match settings.policy with
  | .terminalWaves => ledger
  | .nativeGroups =>
    if safe then ledger.release (demandOf plans) index
    else ledger.quarantine (demandOf plans) index

namespace Run

variable (settings : Settings) {plans : List EpisodePlan} (run : Run plans)

theorem judge_shape (result : EpisodeResult) : ∃ stopped,
    run.judge result = { run with stopped := stopped } ∧ (run.stopped.isSome → stopped.isSome) ∧
      (result.infrastructure = true ∨ result.executionState = "not_admitted" ∨
        result.verificationState = "review_required" → stopped.isSome) ∧
      (¬ (result.infrastructure = true ∨ result.executionState = "not_admitted" ∨
        result.verificationState = "review_required") → stopped = run.stopped) := by
  unfold judge
  by_cases infra : result.infrastructure = true <;>
    by_cases refused : result.executionState = "not_admitted" <;>
    by_cases review : result.verificationState = "review_required" <;>
    simp only [infra, refused, review, if_true, if_false, Bool.false_eq_true] <;>
    refine ⟨_, rfl, ?_⟩ <;> simp

theorem account_shape (index : Fin plans.length) (result : EpisodeResult) : ∃ token stopped,
    run.account settings index result = { run with
      ledger := ledgerAfter settings plans run.ledger index result.safe
      token := token
      stopped := stopped } ∧
      (run.stopped.isSome → stopped.isSome) ∧ (run.token.cancelled = true → token.cancelled = true) ∧
      (result.safe = false → stopped.isSome) ∧
      (result.safe = true → stopped = run.stopped ∧ token = run.token) := by
  unfold account ledgerAfter
  cases policy : settings.policy <;> cases safe : result.safe <;>
    simp only [if_true, if_false, Bool.true_eq_false, Bool.false_eq_true, reduceCtorEq] <;>
    refine ⟨_, _, rfl, ?_⟩ <;> simp [stop, quarantine]

/-- One finished task: its result is recorded, its group counted, and its resources settled. -/
theorem process_shape (index : Fin plans.length) (rest : List (Fin plans.length))
    (result : EpisodeResult) : ∃ token stopped,
    run.process settings index rest result = { run with
      active := run.active.erase index
      results := Function.update run.results index (some result)
      completed := Function.update run.completed (planAt plans index).group
        (run.completed (planAt plans index).group + 1)
      ledger := ledgerAfter settings plans run.ledger index result.safe
      token := token
      stopped := stopped
      held := if run.completed (planAt plans index).group + 1 = expected plans (planAt plans index).group ∧
          settings.policy = .nativeGroups then run.held.erase (planAt plans index).group else run.held
      place := if run.completed (planAt plans index).group + 1
            = expected plans (planAt plans index).group ∧ settings.policy = .terminalWaves then
          .finishHook index rest else .draining rest } ∧
      (run.stopped.isSome → stopped.isSome) ∧ (run.token.cancelled = true → token.cancelled = true) ∧
      (result.stops = true → stopped.isSome) ∧
      (result.stops = false → stopped = run.stopped ∧ token = run.token) := by
  obtain ⟨token, halted, accounted, kept, cancelled, unsafe_, safe⟩ :=
    account_shape settings { run with
      active := run.active.erase index
      results := Function.update run.results index (some result) } index result
  obtain ⟨stopped, judged, still, raised, quiet⟩ := judge_shape (({ run with
      active := run.active.erase index
      results := Function.update run.results index (some result) } : Run plans).account settings
        index result) result
  refine ⟨token, stopped, ?_, ?_, cancelled, ?_, ?_⟩
  · unfold process
    simp only [judged]
    rw [accounted]
    simp only [Function.update_self]
    cases policy : settings.policy <;> simp only [reduceCtorEq, and_true, and_false, if_false] <;>
      split_ifs <;> rfl
  · rw [accounted] at still
    exact fun before => still (kept before)
  · intro stops
    simp only [EpisodeResult.stops, Bool.or_eq_true, Bool.not_eq_true', beq_iff_eq] at stops
    rw [accounted] at still
    rcases stops with ((unsafe' | infra) | refused) | review
    · exact still (unsafe_ unsafe')
    · exact raised (Or.inl infra)
    · exact raised (Or.inr (Or.inl refused))
    · exact raised (Or.inr (Or.inr review))
  · intro calm
    simp only [EpisodeResult.stops, Bool.or_eq_false_iff, Bool.not_eq_false', beq_eq_false_iff_ne,
      ne_eq] at calm
    obtain ⟨⟨⟨safe', infra⟩, refused⟩, review⟩ := calm
    obtain ⟨same, token'⟩ := safe safe'
    refine ⟨?_, token'⟩
    rw [quiet (by simp [infra, refused, review]), accounted]
    exact same

/-- The closure of a wave releases all of it or loses all of it. -/
theorem afterFinish_shape (index : Fin plans.length) (rest : List (Fin plans.length))
    (outcome : HookOutcome) : ∃ token stopped, ∃ safe : Bool,
    run.afterFinish index rest outcome = { run with
      ledger := if safe then
          (indicesOf plans (planAt plans index).group).foldl (Ledger.release (demandOf plans)) run.ledger
        else (indicesOf plans (planAt plans index).group).foldl (Ledger.quarantine (demandOf plans))
          run.ledger
      token := token
      stopped := stopped
      held := run.held.erase (planAt plans index).group
      place := .draining rest } ∧
      (run.stopped.isSome → stopped.isSome) ∧ (run.token.cancelled = true → token.cancelled = true) ∧
      (safe = false → stopped.isSome) ∧
      ((∃ closure, outcome = .returned closure ∧ requestUncertain closure = false) →
        (∀ sibling ∈ indicesOf plans (planAt plans index).group,
          (run.results sibling).any EpisodeResult.safe = true) →
        safe = true ∧ stopped = run.stopped ∧ token = run.token) := by
  have interrupted : ∃ token, (match outcome with
      | .cancelled => run.cancelToken "coordinator_cancelled_during_group_closure"
      | _ => run) = { run with token := token } ∧
        (run.token.cancelled = true → token.cancelled = true) ∧
        (∀ closure, outcome = .returned closure → token = run.token) := by
    cases outcome with
    | returned | raised => exact ⟨run.token, rfl, id, fun _ _ => rfl⟩
    | cancelled => exact ⟨_, rfl, fun _ => rfl, nofun⟩
  obtain ⟨token, same, cancelled, calm⟩ := interrupted
  unfold afterFinish
  simp only [same]
  cases safe : (indicesOf plans (planAt plans index).group).all (fun sibling =>
      (run.results sibling).any EpisodeResult.safe) && !requestUncertain (closureOf outcome) with
  | true =>
    refine ⟨token, run.stopped, true, rfl, id, cancelled, by simp, ?_⟩
    rintro ⟨closure, rfl, -⟩ -
    exact ⟨rfl, rfl, calm closure rfl⟩
  | false =>
    refine ⟨_, _, false, rfl, by simp [stop, cancelToken], fun _ => rfl, by simp [stop, cancelToken], ?_⟩
    rintro ⟨closure, rfl, certain⟩ siblings
    rw [Bool.and_eq_false_iff] at safe
    rcases safe with unsafe_ | uncertain
    · have all := all_eq_true.mpr siblings
      rw [unsafe_] at all
      cases all
    · simp [closureOf, certain] at uncertain

theorem await_cases (later : ℚ) : (run.active = [] ∧ run.await settings later = run.finish) ∨
      (run.drainDeadline.isSome ∧ run.await settings later = (run.expire settings).finish) ∨
      (run.active ≠ [] ∧ run.await settings later = { run with place := .waiting }) := by
  unfold await
  split_ifs with idle
  · exact Or.inl ⟨idle, rfl⟩
  · cases deadline : run.drainDeadline with
    | none => exact Or.inr (Or.inr ⟨idle, rfl⟩)
    | some limit =>
      simp only
      split_ifs
      · exact Or.inr (Or.inl ⟨rfl, rfl⟩)
      · exact Or.inr (Or.inr ⟨idle, rfl⟩)

/-- The check at the top of the loop changes only `stopped` and the deadline. -/
theorem observe_shape (now : ℚ) : ∃ stopped deadline,
    run.observe settings now = { run with stopped := stopped, drainDeadline := deadline } ∧
      (run.stopped.isSome ∨ run.token.cancelled = true → stopped.isSome) ∧
      (run.token.cancelled = false → stopped = run.stopped ∧ deadline = run.drainDeadline) ∧
      ((run.drainDeadline.isSome → run.stopped.isSome) → deadline.isSome → stopped.isSome) := by
  unfold observe
  split_ifs with cancelled
  · exact ⟨_, _, rfl, by simp, by simp [cancelled], by simp⟩
  · exact ⟨run.stopped, run.drainDeadline, rfl, by simp [cancelled], fun _ => ⟨rfl, rfl⟩, id⟩

theorem foldl_admitPlan (indices : List (Fin plans.length)) : indices.foldl admitPlan run = { run with
      ledger := indices.foldl (Ledger.charge (demandOf plans)) run.ledger
      pending := run.pending.diff indices
      active := run.active ++ indices
      handed := run.handed ++ indices } := by
  induction indices generalizing run with
  | nil => simp
  | cons index rest ih =>
    rw [foldl_cons, ih]
    simp [admitPlan, diff_cons]

/-- What holds before the admission loop and is kept by each single admission holds after it. -/
theorem admitNative_induction {settings : Settings} (property : Run plans → Prop)
    (kept : ∀ current index, property current → index ∈ current.pending →
      current.active.length < settings.maxWorkers →
      ((planAt plans index).group ∈ current.held ∨ current.held.length < settings.maxGroups) →
      settings.fits current.ledger.reserved (planAt plans index).task.resources = true →
      property ((current.admitPlan index).hold (planAt plans index).group))
    {indices : List (Fin plans.length)} (distinct : indices.Nodup) {blocked : List String}
    {run : Run plans} (present : ∀ index ∈ indices, index ∈ run.pending) (holds : property run) :
    property (run.admitNative settings indices blocked) := by
  induction indices generalizing blocked run with
  | nil => exact holds
  | cons index rest ih =>
    obtain ⟨absent, others⟩ := nodup_cons.mp distinct
    have remaining : ∀ other ∈ rest, other ∈ run.pending :=
      fun other mem => present other (mem_cons_of_mem _ mem)
    unfold admitNative
    split_ifs with full closed held misfit
    · exact holds
    · exact ih others remaining holds
    · exact ih others remaining holds
    · exact ih others remaining holds
    · refine ih others ?_ (kept run index holds (present index mem_cons_self)
        (not_le.mp full) ?_ (by simpa using misfit))
      · intro other mem
        refine (mem_erase_of_ne ?_).mpr (remaining other mem)
        rintro rfl
        exact absent mem
      · by_cases inside : (planAt plans index).group ∈ run.held
        · exact Or.inl inside
        · exact Or.inr (not_le.mp fun limit => closed ⟨inside, limit⟩)

inductive Moves (settings : Settings) (run : Run plans) : RunAction plans → Run plans → Prop
  | cancel {reason : Option String} (live : ∀ ordered, run.place ≠ .returned ordered) :
      Moves settings run (.cancel reason) { run with token := ⟨true, run.token.reason <|> reason⟩ }
  | complete {index : Fin plans.length} {outcome : Outcome}
      (live : ∀ ordered, run.place ≠ .returned ordered) (handed : index ∈ run.handed)
      (open_ : run.outcomes index = none) :
      Moves settings run (.complete index outcome)
        { run with outcomes := Function.update run.outcomes index (some outcome) }
  | start {benchmarks : List Benchmark} {now later : ℚ} (place : run.place = .starting benchmarks) :
      Moves settings run (.proceed now later) (run.startNext settings benchmarks)
  | started {rest : List Benchmark} {outcome : HookOutcome} {later : ℚ}
      (place : run.place = .startHook rest) :
      Moves settings run (.hook outcome later) (run.afterStart rest outcome)
  | iterate {now later : ℚ} (place : run.place = .top) :
      Moves settings run (.proceed now later) (run.iterate settings now later)
  | admitted {group : GroupKey} {outcome : HookOutcome} {later : ℚ}
      (place : run.place = .admitHook group) :
      Moves settings run (.hook outcome later) (run.afterAdmit settings group later outcome)
  | wake {done : List (Fin plans.length)} (place : run.place = .waiting) (distinct : done.Nodup)
      (finished : ∀ index, index ∈ done ↔ index ∈ run.active ∧ (run.outcomes index).isSome = true) :
      Moves settings run (.wake done) { run with place := .draining done }
  | interrupt (place : run.place = .waiting) :
      Moves settings run .interrupt { (run.cancelToken "coordinator_cancelled") with place := .top }
  | again {now later : ℚ} (place : run.place = .draining []) :
      Moves settings run (.proceed now later) { run with place := .top }
  | process {index : Fin plans.length} {rest : List (Fin plans.length)} {now later : ℚ}
      {outcome : Outcome} (place : run.place = .draining (index :: rest))
      (found : run.outcomes index = some outcome) :
      Moves settings run (.proceed now later)
        (run.process settings index rest (execute (planAt plans index) outcome))
  | finished {index : Fin plans.length} {rest : List (Fin plans.length)} {outcome : HookOutcome}
      {later : ℚ} (place : run.place = .finishHook index rest) :
      Moves settings run (.hook outcome later) (run.afterFinish index rest outcome)
  | settle {now later : ℚ} (place : run.place = .closing []) :
      Moves settings run (.proceed now later) run.settle
  | closed {backend : Backend} {rest : List Backend} {outcome : CloseOutcome}
      (place : run.place = .closing (backend :: rest)) :
      Moves settings run (.closed outcome) (run.afterClose rest outcome)
  | interruptClose {backend : Backend} {rest : List Backend}
      (place : run.place = .closing (backend :: rest)) :
      Moves settings run .interrupt (run.cancelToken "coordinator_cancelled_during_close")

theorem step_moves {settings : Settings} {run next : Run plans} {action : RunAction plans}
    (stepped : run.step settings action = some next) : Moves settings run action next := by
  unfold step at stepped
  split at stepped
  case h_1 | h_16 => cases stepped
  case h_2 place live =>
    cases stepped
    exact .cancel live
  case h_3 place index outcome live =>
    split_ifs at stepped with ready
    cases stepped
    exact .complete live ready.1 (Option.isNone_iff_eq_none.mp ready.2)
  case h_4 place => cases stepped; exact .start place
  case h_5 place => cases stepped; exact .started place
  case h_6 place => cases stepped; exact .iterate place
  case h_7 place => cases stepped; exact .admitted place
  case h_8 place =>
    split_ifs at stepped with ready
    cases stepped
    exact .wake place ready.1 ready.2
  case h_9 place => cases stepped; exact .interrupt place
  case h_10 place => cases stepped; exact .again place
  case h_11 place =>
    obtain ⟨outcome, found, same⟩ := Option.map_eq_some_iff.mp stepped
    cases same
    exact .process place found
  case h_12 place => cases stepped; exact .finished place
  case h_13 place => cases stepped; exact .settle place
  case h_14 place => cases stepped; exact .closed place
  case h_15 place => cases stepped; exact .interruptClose place

end Run

/-- The runs of a coordinator on a list of plans it accepts, under any token. -/
def runSystem (settings : Settings) (plans : List EpisodePlan) :
    System (Run plans) (RunAction plans) where
  initial run := validate settings plans = .ok () ∧ ∃ token, run = Run.fresh plans token
  step := Run.step settings

end TinyDSV41.Coordinator
