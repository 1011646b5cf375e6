/-
**What a refused group leaves of a stream.**

`execute_stream_group` checks the plans of a group one by one and, on the way, records the backend that
owns the executor of a backend stage. A later plan that fails its check leaves these owners behind, and a
group of another backend on such an executor is refused from then on. `run` keeps the owners of its plans
in a table of its own.

* `stagesOf`, `Passes` — the owners behind some plans, and the checks of the next one.
* `checkPlans_pass`, `checkPlans_fail` — the loop over the plans in these terms.
* `refused_group_leaves` — which refused groups leave the stream as it was.
-/

import TinyDSV41.Coordinator.Stream

namespace TinyDSV41.Coordinator

open List

variable {settings : Settings} {stream : Stream} {plans before : List EpisodePlan}
  {plan : EpisodePlan} {owners next : List (String × Backend)}

/-! ### The checks of the plans -/

def stageOf (settings : Settings) (plan : EpisodePlan) : Option (String × Backend) :=
  match plan.task.resources.accounting with
  | .episode => none
  | .backendStage => (settings.backends plan.task.benchmark).map fun backend =>
    (plan.task.resources.executor, backend)

/-- The executors of the backend stages of some plans, with the backends of these plans. -/
def stagesOf (settings : Settings) (plans : List EpisodePlan) : List (String × Backend) :=
  plans.filterMap (stageOf settings)

/-- A plan behind others has a backend, which owns the executor if the plan is a backend stage and the
executor has an owner, and fits an empty executor. -/
def Passes (settings : Settings) (owners : List (String × Backend)) (before : List EpisodePlan)
    (plan : EpisodePlan) : Prop :=
  ∃ backend, settings.backends plan.task.benchmark = some backend ∧
    (plan.task.resources.accounting = .backendStage →
      ∀ owner, (owners ++ stagesOf settings before).lookup plan.task.resources.executor = some owner →
        owner.object = backend.object) ∧
    settings.validResources plan.task.resources = true

def AllPass (settings : Settings) (owners : List (String × Backend)) (plans : List EpisodePlan) : Prop :=
  ∀ before plan after, plans = before ++ plan :: after → Passes settings owners before plan

/-- The plan is a backend stage whose executor has no owner. -/
def Takes (owners : List (String × Backend)) (plan : EpisodePlan) : Prop :=
  plan.task.resources.accounting = .backendStage ∧ owners.lookup plan.task.resources.executor = none

def SameOwners (first second : List (String × Backend)) : Prop :=
  ∀ executor, first.lookup executor = second.lookup executor

theorem SameOwners.append (same : SameOwners owners next) (more : List (String × Backend)) :
    SameOwners (owners ++ more) (next ++ more) := by
  intro executor
  rw [lookup_append, lookup_append, same executor]

/-- A plan that passes records the executor of its backend stage, if nobody owns it. -/
theorem checkPlan_passes (passes : Passes settings owners [] plan) :
    ∃ next, checkPlan settings (fun _ => "") owners plan = .ok next ∧
      SameOwners next (owners ++ stagesOf settings [plan]) ∧
      (next = owners ∧ ¬ Takes owners plan ∨ Takes owners plan ∧ owners.length < next.length) := by
  obtain ⟨backend, registered, owned, valid⟩ := passes
  rw [stagesOf, filterMap_nil, append_nil] at owned
  unfold checkPlan stageOwner
  cases accounting : plan.task.resources.accounting with
  | episode =>
    refine ⟨owners, ?_, fun executor => ?_, Or.inl ⟨rfl, fun takes => ?_⟩⟩
    · simp only [registered]
      rw [if_pos valid]
    · simp [stagesOf, stageOf, accounting]
    · rw [takes.1] at accounting
      cases accounting
  | backendStage =>
    have stage : stagesOf settings [plan] = [(plan.task.resources.executor, backend)] := by
      simp [stagesOf, stageOf, accounting, registered]
    rw [stage]
    cases found : owners.lookup plan.task.resources.executor with
    | none =>
      refine ⟨owners ++ [(plan.task.resources.executor, backend)], ?_, fun _ => rfl, Or.inr ?_⟩
      · simp only [registered]
        rw [if_pos valid]
      · exact ⟨⟨accounting, found⟩, by simp⟩
    | some owner =>
      refine ⟨owners, ?_, fun executor => ?_, Or.inl ⟨rfl, fun takes => ?_⟩⟩
      · simp only [registered, owned accounting owner found, if_true]
        rw [if_pos valid]
      · rw [lookup_append]
        by_cases same : executor = plan.task.resources.executor
        · rw [same, found]
          rfl
        · rw [lookup_cons, beq_false_of_ne same]
          simp
      · rw [takes.2] at found
        cases found

theorem checkPlan_fails (fails : ¬ Passes settings owners [] plan) :
    ∃ message, checkPlan settings (fun _ => "") owners plan = .error message := by
  cases checked : checkPlan settings (fun _ => "") owners plan with
  | error message => exact ⟨message, rfl⟩
  | ok next =>
    refine absurd ?_ fails
    have valid := checkPlan_valid checked
    unfold checkPlan stageOwner at checked
    cases registered : settings.backends plan.task.benchmark with
    | none => simp [registered] at checked
    | some backend =>
      refine ⟨backend, registered, fun staged owner found => ?_, valid⟩
      rw [stagesOf, filterMap_nil, append_nil] at found
      simp only [registered, staged, found] at checked
      by_contra differs
      simp [differs] at checked

theorem Passes.congr (same : SameOwners owners next) (before : List EpisodePlan) :
    Passes settings owners before plan ↔ Passes settings next before plan := by
  unfold Passes
  rw [same.append (stagesOf settings before) plan.task.resources.executor]

theorem passes_nil : Passes settings (owners ++ stagesOf settings before) [] plan
    ↔ Passes settings owners before plan := by
  unfold Passes
  rw [show stagesOf settings [] = [] from rfl, append_nil]

theorem passes_cons {first : EpisodePlan} : Passes settings owners (first :: before) plan
      ↔ Passes settings (owners ++ stagesOf settings [first]) before plan := by
  unfold Passes stagesOf
  rw [append_assoc, ← filterMap_append]
  rfl

theorem AllPass.head (all : AllPass settings owners (plan :: plans)) : Passes settings owners [] plan :=
  all [] plan plans rfl

theorem AllPass.tail (all : AllPass settings owners (plan :: plans))
    (same : SameOwners next (owners ++ stagesOf settings [plan])) : AllPass settings next plans := by
  intro before other after split
  have passes := all (plan :: before) other after (by rw [split]; rfl)
  rw [passes_cons, ← Passes.congr same] at passes
  exact passes

section

variable (rest : List EpisodePlan) (all : AllPass settings owners before)
include rest all

theorem checkPlans_pass :
    ∃ next, Stream.checkPlans settings (before ++ rest) owners = Stream.checkPlans settings rest next ∧
      SameOwners next (owners ++ stagesOf settings before) ∧ owners.length ≤ next.length ∧
      (next = owners ↔ ∀ plan ∈ before, ¬ Takes owners plan) := by
  induction before generalizing owners with
  | nil =>
    refine ⟨owners, rfl, fun executor => ?_, Nat.le_refl _, by simp⟩
    rw [stagesOf, filterMap_nil, append_nil]
  | cons plan before known =>
    obtain ⟨one, checked, same, kept⟩ := checkPlan_passes all.head
    obtain ⟨next, looped, later, grows, iff⟩ := known (all.tail same)
    refine ⟨next, ?_, fun executor => ?_, ?_, ?_⟩
    · rw [cons_append, Stream.checkPlans, checked]
      exact looped
    · rw [later executor, same.append _ executor, append_assoc]
      unfold stagesOf
      rw [← filterMap_append]
      rfl
    · rcases kept with ⟨rfl, -⟩ | ⟨-, longer⟩
      · exact grows
      · exact Nat.le_trans longer.le grows
    · rw [forall_mem_cons]
      rcases kept with ⟨rfl, free⟩ | ⟨takes, longer⟩
      · rw [iff]
        exact ⟨fun all => ⟨free, all⟩, fun all => all.2⟩
      · refine ⟨fun equal => ?_, fun all => absurd takes all.1⟩
        rw [equal] at grows
        exact absurd longer (Nat.not_lt.mpr grows)

theorem checkPlans_fail (fails : ¬ Passes settings owners before plan) :
    ∃ next message, Stream.checkPlans settings (before ++ plan :: rest) owners = (next, some message) ∧
      (next = owners ↔ ∀ other ∈ before, ¬ Takes owners other) := by
  obtain ⟨next, looped, same, -, iff⟩ := checkPlans_pass (plan :: rest) all
  have refused : ¬ Passes settings next [] plan := by
    rw [Passes.congr same, passes_nil]
    exact fails
  obtain ⟨message, checked⟩ := checkPlan_fails refused
  refine ⟨next, message, ?_, iff⟩
  rw [looped, Stream.checkPlans, checked]

end

theorem allPass_or_first (settings : Settings) (owners : List (String × Backend))
    (plans : List EpisodePlan) : AllPass settings owners plans ∨
      ∃ before plan rest, plans = before ++ plan :: rest ∧ AllPass settings owners before ∧
        ¬ Passes settings owners before plan := by
  induction plans using reverseRecOn with
  | nil => exact Or.inl fun before plan after split => by simp at split
  | append_singleton plans last known =>
    rcases known with all | ⟨before, plan, rest, rfl, all, fails⟩
    · by_cases passes : Passes settings owners plans last
      · refine Or.inl fun before plan after split => ?_
        rcases eq_nil_or_concat after with rfl | ⟨front, final, rfl⟩
        · obtain ⟨rfl, same⟩ := append_inj' split rfl
          cases same
          exact passes
        · rw [concat_eq_append, ← cons_append, ← append_assoc] at split
          obtain ⟨same, -⟩ := append_inj' split rfl
          exact all before plan front same
      · exact Or.inr ⟨plans, last, [], rfl, all, passes⟩
    · refine Or.inr ⟨before, plan, rest ++ [last], ?_, all, fails⟩
      rw [append_assoc, cons_append]

/-! ### Refused groups -/

/-- `execute_stream_group` up to the creation of its task; a sequence that is no integer is missing. -/
def executeStreamGroup (settings : Settings) (stream : Stream) (plans : List EpisodePlan)
    (sequence : Option ℤ) : Stream × Except String Unit :=
  match sequence with
  | some sequence => stream.submit settings plans sequence
  | none =>
    if stream.closed ∨ stream.paused then (stream, .error "stream admission is unavailable")
    else (stream, .error "stream requires a new monotonic sequence and one unique complete group")

/-- The call comes to the checks of its plans: the stream is open, the sequence is new, the group is one
unique group of the run, and there is credit for it. -/
def Reaches (stream : Stream) (plans : List EpisodePlan) (sequence : Option ℤ) : Prop :=
  (stream.closed = false ∧ stream.paused = false) ∧
  (∃ number, sequence = some number ∧ stream.sequence < number) ∧
  (plans ≠ [] ∧ (plans.map (·.identity)).Nodup ∧ (plans.map (·.group)).eraseDups.length = 1) ∧
  ((plans.map (·.identity.runId)).eraseDups.length = 1 ∧
    (stream.runId = none ∨ stream.runId = plans.head?.map (·.identity.runId))) ∧
  stream.pending + plans.length ≤ stream.pendingLimit

/-- A plan takes an executor that nobody owns, and a later plan is the first that does not pass. -/
def Strays (settings : Settings) (owners : List (String × Backend)) (plans : List EpisodePlan) : Prop :=
  ∃ before plan rest, plans = before ++ plan :: rest ∧ AllPass settings owners before ∧
    ¬ Passes settings owners before plan ∧ ∃ other ∈ before, Takes owners other

theorem refused_early {sequence : Option ℤ} (early : ¬ Reaches stream plans sequence) :
    (executeStreamGroup settings stream plans sequence).1 = stream := by
  unfold executeStreamGroup
  cases sequence with
  | none => split_ifs <;> rfl
  | some number =>
    dsimp only
    unfold Stream.submit
    split_ifs with available shape run credit
    · rfl
    · rfl
    · rfl
    · rfl
    · refine absurd ?_ early
      push Not at available shape run credit
      refine ⟨⟨?_, ?_⟩, ⟨number, rfl, shape.1⟩, shape.2, ⟨run.1, ?_⟩, credit⟩
      · simpa using available.1
      · simpa using available.2
      · exact run.2

theorem submit_reaches {sequence : Option ℤ} (reaches : Reaches stream plans sequence) :
    (∀ owners message, Stream.checkPlans settings plans stream.stageOwners = (owners, some message) →
      executeStreamGroup settings stream plans sequence
        = ({ stream with stageOwners := owners }, .error message)) ∧
    ∀ owners, Stream.checkPlans settings plans stream.stageOwners = (owners, none) →
      (executeStreamGroup settings stream plans sequence).2 = .ok () := by
  obtain ⟨⟨opened, running⟩, ⟨number, rfl, new⟩, ⟨some_, distinct, one⟩, ⟨run, same⟩, credit⟩ := reaches
  unfold executeStreamGroup
  dsimp only
  unfold Stream.submit
  rw [if_neg (by simp [opened, running]), if_neg (by simp [new, some_, distinct, one]),
    if_neg (by simp [run, same]), if_neg (Nat.not_lt.mpr credit)]
  constructor
  · intro owners message checked
    rw [checked]
  · intro owners checked
    rw [checked]

/-- A refused call leaves the stream as it was exactly if no plan of its group has taken an executor
that nobody owned before the first plan that does not pass. -/
theorem refused_group_leaves (settings : Settings) (stream : Stream) (plans : List EpisodePlan)
    (sequence : Option ℤ) :
    (∀ message, (executeStreamGroup settings stream plans sequence).2 = .error message →
      (executeStreamGroup settings stream plans sequence).1 = stream) ↔
    ¬ (Reaches stream plans sequence ∧ Strays settings stream.stageOwners plans) := by
  constructor
  · rintro kept ⟨reaches, before, plan, rest, rfl, all, fails, other, member, takes⟩
    obtain ⟨next, message, checked, iff⟩ := checkPlans_fail rest all fails
    have refused := (submit_reaches reaches).1 next message checked
    have same := kept message (by rw [refused])
    rw [refused] at same
    exact iff.mp (congrArg Stream.stageOwners same) other member takes
  · intro straight message refused
    by_cases reaches : Reaches stream plans sequence
    · rcases allPass_or_first settings stream.stageOwners plans with all |
        ⟨before, plan, rest, rfl, all, fails⟩
      · obtain ⟨next, looped, -⟩ := checkPlans_pass [] all
        rw [append_nil] at looped
        rw [(submit_reaches reaches).2 next looped] at refused
        cases refused
      · obtain ⟨next, other, checked, iff⟩ := checkPlans_fail rest all fails
        have same : next = stream.stageOwners := iff.mpr fun earlier member takes =>
          straight ⟨reaches, before, plan, rest, rfl, all, fails, earlier, member, takes⟩
        rw [(submit_reaches reaches).1 next other checked, same]
    · exact refused_early reaches

/-! ### A later group -/

/-- Two backends, and one CPU on the executor `local`. -/
def twoBackends : Settings where
  backends benchmark :=
    if benchmark = .kernelbench then some ⟨0, false⟩
    else if benchmark = .terminalBench then some ⟨1, true⟩ else none
  maxWorkers := 2
  maxGroups := 2
  capacities executor := if executor = "local" then some oneCpu else none
  drainTimeout := 1
  policy := .nativeGroups
  maxWorkers_pos := Nat.two_pos
  maxGroups_pos := Nat.two_pos
  drainTimeout_pos := rat_one_pos
  waves := native_two

def stageRequirement : ResourceRequirements :=
  { oneCpu with executor := "stage", accounting := .backendStage, executor_ne := by decide }

def twoCpus : ResourceRequirements := { oneCpu with cpu := 2, nonneg := by decide }

/-- The first plan is a stage of its backend, the second one does not fit. -/
def misfits : List EpisodePlan :=
  [{ kernelPlan 0 with task := ⟨.kernelbench, "task", "source", stageRequirement⟩, agrees := ⟨rfl, rfl⟩ },
    { kernelPlan 1 with task := ⟨.kernelbench, "task", "source", twoCpus⟩, agrees := ⟨rfl, rfl⟩ }]

def otherStage : List EpisodePlan :=
  [{  identity := ⟨"run", .terminalBench, "task", "later", 0, 0, none, none⟩
      task := ⟨.terminalBench, "task", "source", stageRequirement⟩
      agrees := ⟨rfl, rfl⟩ }]

/-- The refused group leaves an owner, and a group that was acceptable before is refused behind it. -/
theorem refused_group_owns :
    let opened := Stream.opened twoBackends 8 .fresh
    let refused := executeStreamGroup twoBackends opened misfits (some 0)
    refused.2 = .error "episode exceeds executor capacity" ∧
      refused.1.stageOwners.lookup "stage" = some ⟨0, false⟩ ∧ refused.1 ≠ opened ∧
      (executeStreamGroup twoBackends opened otherStage (some 0)).2 = .ok () ∧
      (executeStreamGroup twoBackends refused.1 otherStage (some 0)).2
        = .error "backend-stage executor requires one authoritative backend owner" := by
  have owned : (executeStreamGroup twoBackends (Stream.opened twoBackends 8 .fresh) misfits
      (some 0)).1.stageOwners.lookup "stage" = some ⟨0, false⟩ := by
    decide +kernel
  refine ⟨by decide +kernel, owned, fun same => ?_, by decide +kernel, by decide +kernel⟩
  rw [same] at owned
  cases owned

end TinyDSV41.Coordinator
