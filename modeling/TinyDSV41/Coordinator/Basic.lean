/-
**The coordinator's configuration and its small functions.**

`Coordinator.__init__`, the capacity tests `_fits`, `_wave_fits` and `fits_capacity`, the bookkeeping
`_charge` and `_quarantine` (the operations of a `Ledger` with the demands of the plans) and the
results `_execute`, `_unresolved` and `_not_admitted`.

* `fits_within` — a requirement that fits keeps every limit.
* `waveFits_within` — plans that fit together keep every limit.
* `execute_identity` — whatever a backend does, its plan gets a result of its own identity.
-/

import TinyDSV41.Coordinator.Contracts
import TinyDSV41.Lib.Ledger

namespace TinyDSV41.Coordinator

open List Lib ResourceRequirements Quantity

inductive Policy
  | nativeGroups
  | terminalWaves
deriving DecidableEq

/-- A registered backend: its identity as an object, and whether it has a callable `admit_group`. -/
structure Backend where
  object : ℕ
  admitsGroups : Bool
deriving DecidableEq

/-- The settings of a `Coordinator`, as its constructor accepts them. -/
structure Settings where
  backends : Benchmark → Option Backend
  maxWorkers : ℕ
  maxGroups : ℕ
  capacities : String → Option ResourceRequirements
  drainTimeout : ℚ
  policy : Policy
  maxWorkers_pos : 1 ≤ maxWorkers
  maxGroups_pos : 1 ≤ maxGroups
  drainTimeout_pos : 0 < drainTimeout
  waves : policy = .terminalWaves → maxGroups = 1

theorem native_two : Policy.nativeGroups = .terminalWaves → 2 = 1 := nofun

theorem rat_one_pos : (0 : ℚ) < 1 := by decide

def Settings.limit (settings : Settings) (account : Account) : Option ℚ :=
  (settings.capacities account.1).map fun capacity => capacity.amount account.2

/-- The semantic group of a plan, `_group`. -/
abbrev GroupKey := Benchmark × String × ℕ

/-- `_group`. -/
def EpisodePlan.group (plan : EpisodePlan) : GroupKey :=
  (plan.identity.benchmark, plan.identity.groupId, plan.identity.passIndex)

/-! ### Capacity -/

/-- `_fits`: the requirement fits beside what is reserved. -/
def Settings.fits (settings : Settings) (reserved : Account → ℚ)
    (requirement : ResourceRequirements) : Bool :=
  requirement.accounting == .backendStage ||
    match settings.capacities requirement.executor with
    | none => true
    | some capacity => all.all fun quantity =>
      reserved (requirement.executor, quantity) + requirement.amount quantity ≤ capacity.amount quantity

def totals (plans : List EpisodePlan) (account : Account) : ℚ :=
  (plans.map fun plan => plan.task.resources.demand account).sum

def executors (plans : List EpisodePlan) : List String :=
  (plans.filter fun plan => plan.task.resources.accounting == .episode).map
    fun plan => plan.task.resources.executor

/-- `_wave_fits`: all plans fit together beside what is reserved. -/
def Settings.waveFits (settings : Settings) (reserved : Account → ℚ) (plans : List EpisodePlan) :
    Bool :=
  (executors plans).all fun executor =>
    match settings.capacities executor with
    | none => true
    | some capacity => all.all fun quantity =>
      reserved (executor, quantity) + totals plans (executor, quantity) ≤ capacity.amount quantity

/-- `fits_capacity`: all plans fit together on empty executors. -/
def Settings.fitsCapacity (settings : Settings) (plans : List EpisodePlan) : Bool :=
  settings.waveFits (fun _ => 0) plans

/-- The requirement alone is within the capacity of its executor, as both entry points validate. -/
def Settings.validResources (settings : Settings) (requirement : ResourceRequirements) : Bool :=
  match settings.capacities requirement.executor with
  | none => true
  | some capacity => requirement.accounting != .episode ||
      all.all fun quantity => requirement.amount quantity ≤ capacity.amount quantity

section Capacity

variable {settings : Settings} {reserved : Account → ℚ}
variable {account : Account}
variable {bound : ℚ}

theorem limit_eq (limited : settings.limit account = some bound) :
    ∃ capacity, settings.capacities account.1 = some capacity ∧ capacity.amount account.2 = bound := by
  obtain ⟨capacity, found, same⟩ := Option.map_eq_some_iff.mp limited
  exact ⟨capacity, found, same⟩

variable {requirement : ResourceRequirements}

theorem fits_within (fits : settings.fits reserved requirement = true)
    (within : ∀ account bound, settings.limit account = some bound → reserved account ≤ bound)
    (limited : settings.limit account = some bound) :
    reserved account + requirement.demand account ≤ bound := by
  unfold demand
  split_ifs with charged
  · obtain ⟨episode, executor⟩ := charged
    obtain ⟨capacity, found, same⟩ := limit_eq limited
    obtain ⟨owner, quantity⟩ := account
    subst executor
    subst same
    simp only [Settings.fits, episode, found, Bool.or_eq_true, all_eq_true, decide_eq_true_eq] at fits
    rcases fits with staged | fits
    · simp at staged
    · exact fits quantity quantity.mem_all
  · rw [add_zero]
    exact within account bound limited

theorem fits_mono {more : Account → ℚ} (grows : ∀ account, reserved account ≤ more account)
    (misfit : settings.fits reserved requirement = false) :
    settings.fits more requirement = false := by
  rw [← Bool.not_eq_true] at misfit ⊢
  intro fits
  apply misfit
  unfold Settings.fits at fits ⊢
  cases found : settings.capacities requirement.executor with
  | none => simp
  | some capacity =>
    simp only [found, Bool.or_eq_true, all_eq_true, decide_eq_true_eq] at fits ⊢
    refine fits.imp_right fun all quantity mem => ?_
    exact (add_le_add_left (grows _) _).trans (all quantity mem)

variable {plans : List EpisodePlan}

theorem waveFits_mono {more : Account → ℚ} (grows : ∀ account, reserved account ≤ more account)
    (misfit : settings.waveFits reserved plans = false) :
    settings.waveFits more plans = false := by
  rw [← Bool.not_eq_true] at misfit ⊢
  intro fits
  apply misfit
  unfold Settings.waveFits at fits ⊢
  rw [all_eq_true] at fits ⊢
  intro executor mem
  have checked := fits executor mem
  cases found : settings.capacities executor with
  | none => rfl
  | some capacity =>
    simp only [found, all_eq_true, decide_eq_true_eq] at checked ⊢
    exact fun quantity inside => (add_le_add_left (grows _) _).trans (checked quantity inside)

theorem fits_of_empty (valid : settings.validResources requirement = true)
    (empty : ∀ account, reserved account = 0) :
    settings.fits reserved requirement = true := by
  unfold Settings.validResources at valid
  unfold Settings.fits
  cases accounting : requirement.accounting with
  | backendStage => simp
  | episode =>
    cases found : settings.capacities requirement.executor with
    | none => simp
    | some capacity => simpa [found, accounting, empty] using valid

theorem totals_eq_zero (absent : account.1 ∉ executors plans) : totals plans account = 0 := by
  refine sum_eq_zero ?_
  intro amount mem
  obtain ⟨plan, inside, rfl⟩ := mem_map.mp mem
  unfold demand
  rw [if_neg]
  rintro ⟨episode, executor⟩
  refine absent (mem_map.mpr ⟨plan, mem_filter.mpr ⟨inside, ?_⟩, executor⟩)
  simp [episode]

theorem waveFits_within (fits : settings.waveFits reserved plans = true)
    (within : ∀ account bound, settings.limit account = some bound → reserved account ≤ bound)
    (limited : settings.limit account = some bound) :
    reserved account + totals plans account ≤ bound := by
  by_cases here : account.1 ∈ executors plans
  · obtain ⟨capacity, found, same⟩ := limit_eq limited
    have checked := all_eq_true.mp fits account.1 here
    rw [found] at checked
    have bounded := all_eq_true.mp checked account.2 account.2.mem_all
    rw [decide_eq_true_eq] at bounded
    rw [← same]
    exact bounded
  · rw [totals_eq_zero here, add_zero]
    exact within account bound limited

theorem fitsCapacity_singleton {plan : EpisodePlan}
    (valid : settings.validResources plan.task.resources = true) :
    settings.fitsCapacity [plan] = true := by
  unfold Settings.fitsCapacity Settings.waveFits
  rw [all_eq_true]
  intro executor listed
  obtain ⟨one, mem, rfl⟩ := mem_map.mp listed
  obtain ⟨inside, episode⟩ := mem_filter.mp mem
  obtain rfl := mem_singleton.mp inside
  unfold Settings.validResources at valid
  cases found : settings.capacities one.task.resources.executor with
  | none => rfl
  | some capacity =>
    have accounted : one.task.resources.accounting = .episode := by simpa using episode
    simp only [found, accounted] at valid
    simpa [totals, demand, accounted] using valid

end Capacity

/-! ### Validation of a plan -/

/-- The table of stage owners after a plan: an executor of backend stages belongs to one backend
object. The texts of `run` end in a `detail` that those of the stream lack. -/
def stageOwner (settings : Settings) (detail : String → String) (owners : List (String × Backend))
    (plan : EpisodePlan) : Except String (List (String × Backend)) :=
  match settings.backends plan.task.benchmark with
  | none => .error ("no backend registered for " ++ plan.task.benchmark.name)
  | some backend =>
    match plan.task.resources.accounting with
    | .episode => .ok owners
    | .backendStage =>
      match owners.lookup plan.task.resources.executor with
      | none => .ok (owners ++ [(plan.task.resources.executor, backend)])
      | some owner =>
        if owner.object = backend.object then .ok owners
        else .error ("backend-stage executor requires one authoritative backend owner"
          ++ detail plan.task.resources.executor)

def checkPlan (settings : Settings) (detail : String → String) (owners : List (String × Backend))
    (plan : EpisodePlan) : Except String (List (String × Backend)) :=
  match stageOwner settings detail owners plan with
  | .error message => .error message
  | .ok next =>
    if settings.validResources plan.task.resources then .ok next
    else .error ("episode exceeds executor capacity" ++ detail plan.task.taskId)

theorem checkPlan_valid {settings : Settings} {detail : String → String}
    {owners next : List (String × Backend)} {plan : EpisodePlan}
    (checked : checkPlan settings detail owners plan = .ok next) :
    settings.validResources plan.task.resources = true := by
  unfold checkPlan at checked
  split at checked
  · cases checked
  · split_ifs at checked with valid
    exact valid

/-! ### Results -/

/-- `_safe`: the cleanup is proven and no request is unresolved. -/
def EpisodeResult.safe (result : EpisodeResult) : Bool :=
  (result.cleanupState == "verified" || result.cleanupState == "not_required") &&
    !requestUncertain result.requestState

def EpisodeResult.infrastructure (result : EpisodeResult) : Bool :=
  result.failureCategory == some "infrastructure" || result.failureCategory == some "infrastructure_error"

/-- `_unresolved`. -/
def unresolved (plan : EpisodePlan) (reason : String) : EpisodeResult where
  identity := plan.identity
  executionState := "failed"
  verificationState := "unknown"
  scoreEligible := false
  cleanupState := "unknown"
  nativeOutcome := [("reason", .text reason)]
  failureCategory := some "infrastructure"
  requestState := none
  sourceSha256 := some plan.task.sourceSha256

/-- `_not_admitted`. -/
def notAdmitted (plan : EpisodePlan) (reason : String) : EpisodeResult where
  identity := plan.identity
  executionState := "not_admitted"
  verificationState := "not_performed"
  scoreEligible := false
  cleanupState := "not_required"
  nativeOutcome := [("reason", .text reason)]
  failureCategory := none
  requestState := none
  sourceSha256 := some plan.task.sourceSha256

/-- What the `execute` of a backend does in the end. -/
inductive Outcome
  | returned (result : EpisodeResult)
  /-- It returned something that is no `EpisodeResult`. -/
  | other
  | cancelled
  /-- It raised an exception, shown with its type. -/
  | raised (text : String)

/-- `_execute`: the result the coordinator sees. -/
def execute (plan : EpisodePlan) : Outcome → EpisodeResult
  | .returned result =>
    if result.identity = plan.identity then result
    else unresolved plan "ValueError: backend returned a different episode identity or result contract"
  | .other => unresolved plan
      "ValueError: backend returned a different episode identity or result contract"
  | .cancelled => unresolved plan "backend_cancelled_without_cleanup_proof"
  | .raised text => unresolved plan text

section

variable (plan : EpisodePlan)
include plan

theorem execute_identity (outcome : Outcome) : (execute plan outcome).identity = plan.identity := by
  cases outcome with
  | returned result =>
    simp only [execute]
    split_ifs with same
    · exact same
    · rfl
  | other | cancelled | raised => rfl

theorem execute_cases (outcome : Outcome) :
    (∃ result, outcome = .returned result ∧ result.identity = plan.identity ∧
      execute plan outcome = result) ∨
      ∃ reason, execute plan outcome = unresolved plan reason := by
  cases outcome with
  | returned result =>
    simp only [execute]
    split_ifs with same
    · exact Or.inl ⟨result, rfl, same, rfl⟩
    · exact Or.inr ⟨_, rfl⟩
  | other | cancelled | raised => exact Or.inr ⟨_, rfl⟩

end

/-! ### Sample values -/

def oneCpu : ResourceRequirements where
  executor := "local"
  cpu := 1
  memoryBytes := 0
  storageBytes := 0
  gpuCount := 0
  accounting := .episode
  executor_ne := by decide
  nonneg := by decide

def kernelPlan (sampleIndex : ℕ) : EpisodePlan where
  identity := ⟨"run", .kernelbench, "task", "group", sampleIndex, 0, none, none⟩
  task := ⟨.kernelbench, "task", "source", oneCpu⟩
  agrees := ⟨rfl, rfl⟩

def completed (plan : EpisodePlan) (cleanupState : String) : EpisodeResult where
  identity := plan.identity
  executionState := "completed"
  verificationState := "verified"
  scoreEligible := true
  cleanupState := cleanupState
  nativeOutcome := []
  failureCategory := none
  requestState := none
  sourceSha256 := none

end TinyDSV41.Coordinator
