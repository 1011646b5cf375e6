/-
**An undisturbed `Coordinator.run` executes every plan.**

When every backend returns a result that stops nothing, no hook fails and nobody cancels, the four
conditions on an admission (the order on an executor, the quantities, the workers, the held groups)
never block each other: with nothing active nothing is reserved, so the first plan of a held group,
or the first plan at all, is admitted.

* `admitNative_progress` — the admission loop with nothing active admits a plan.
* `flows_step` — an undisturbed step keeps the run free of stops, and leaves the loop only when no plan
  is pending.
* `weight_step` — every undisturbed step other than an empty wake consumes something finite.
* `run_completes` — the loop never starves, ends unless a backend never does, and then every plan was
  executed.
* `uncertain_closure_stops` — the run ends early after a closure that leaves jobs behind.
-/

import TinyDSV41.Coordinator.RunResources
import Mathlib.Data.List.Perm.Subperm

namespace TinyDSV41.Coordinator

open List Lib Run Option Bool
open Function (update update_of_ne update_self)

namespace Run

variable {settings : Settings} {plans : List EpisodePlan} {run : Run plans}

/-- Nobody cancels, no hook raises or leaves a closure uncertain, and every backend returns a result of
its own plan that stops nothing. -/
def undisturbed (run : Run plans) : RunAction plans → Prop
  | .complete index outcome => ∃ result, outcome = .returned result ∧
      result.identity = (planAt plans index).identity ∧ result.stops = false
  | .hook outcome _ => ∃ closure, outcome = .returned closure ∧
      ∀ index rest, run.place = .finishHook index rest → requestUncertain closure = false
  | .interrupt => False
  | .cancel _ => False
  | .proceed _ _ | .wake _ | .closed _ => True

instance decidableUndisturbed (run : Run plans) (action : RunAction plans) :
    Decidable (run.undisturbed action) :=
  match action with
  | .complete index (.returned result) =>
    decidable_of_iff (result.identity = (planAt plans index).identity ∧ result.stops = false)
      ⟨fun harmless => ⟨result, rfl, harmless⟩, by rintro ⟨_, ⟨⟩, harmless⟩; exact harmless⟩
  | .complete _ .other | .complete _ .cancelled | .complete _ (.raised _) =>
    isFalse (by rintro ⟨_, ⟨⟩, _⟩)
  | .hook (.returned closure) _ =>
    match place : run.place with
    | .finishHook _ _ => decidable_of_iff (requestUncertain closure = false)
        ⟨fun certain => ⟨closure, rfl, fun _ _ _ => certain⟩, by
          rintro ⟨_, ⟨⟩, certain⟩
          exact certain _ _ place⟩
    | .starting _ | .startHook _ | .top | .admitHook _ | .waiting | .draining _ | .closing _
    | .returned _ => isTrue ⟨closure, rfl, fun _ _ other => by rw [place] at other; cases other⟩
  | .hook (.raised _) _ | .hook .cancelled _ => isFalse (by rintro ⟨_, ⟨⟩, _⟩)
  | .interrupt | .cancel _ => isFalse id
  | .proceed _ _ | .wake _ | .closed _ => isTrue trivial

/-- Every outcome is a plan's own harmless result, and every result is an outcome. -/
def Own (run : Run plans) : Prop :=
  (∀ index outcome, run.outcomes index = some outcome → ∃ result, outcome = .returned result ∧
    result.identity = (planAt plans index).identity ∧ result.stops = false) ∧
  ∀ index result, run.results index = some result → run.outcomes index = some (.returned result)

def Calm (run : Run plans) : Prop :=
  run.stopped = none ∧ run.token.cancelled = false ∧ run.drainDeadline = none ∧ run.Own

/-- What holds at each place of an undisturbed run. -/
def Flows (run : Run plans) : Prop :=
  match run.place with
  | .waiting => run.Calm ∧ run.active ≠ []
  | .closing _ => run.pending = [] ∧ run.Own ∧ run.token.cancelled = false
  | .returned ordered => ∃ list, ordered = some list ∧ list.length = plans.length ∧
      ∀ index : Fin plans.length, index ∈ run.handed ∧
        ∃ own, list[index.val]? = some own ∧ run.outcomes index = some (.returned own)
  | _ => run.Calm

/-! ### Admission -/

variable {indices : List (Fin plans.length)}

theorem admitNative_active {blocked : List String} (busy : run.active ≠ []) :
    (run.admitNative settings indices blocked).active ≠ [] := by
  induction indices generalizing blocked run with
  | nil => exact busy
  | cons index rest ih =>
    unfold admitNative
    split_ifs
    · exact busy
    · exact ih busy
    · exact ih busy
    · exact ih busy
    · refine ih ?_
      show run.active ++ [index] ≠ []
      simp

/-- With nothing active and every plan fitting, the first plan whose group may be opened is
admitted. -/
theorem admitNative_progress (idle : run.active = [])
    (fits : ∀ index ∈ indices, settings.fits run.ledger.reserved (planAt plans index).task.resources =
      true)
    (eligible : ∃ index ∈ indices, (planAt plans index).group ∈ run.held ∨ run.held.length <
      settings.maxGroups) :
    (run.admitNative settings indices []).active ≠ [] := by
  have workers := settings.maxWorkers_pos
  induction indices with
  | nil =>
    obtain ⟨_, mem, -⟩ := eligible
    cases mem
  | cons index rest ih =>
    unfold admitNative
    split_ifs with full closed held misfit
    · rw [idle] at full
      simp only [length_nil] at full
      omega
    · refine ih (fun other mem => fits other (mem_cons_of_mem _ mem)) ?_
      obtain ⟨other, mem, opens⟩ := eligible
      rcases mem_cons.mp mem with rfl | later
      · exact absurd opens (by
          rintro (inside | room)
          · exact closed.1 inside
          · omega)
      · exact ⟨other, later, opens⟩
    · cases held
    · exact absurd (fits index mem_cons_self) (by simp [misfit])
    · refine admitNative_active ?_
      show run.active ++ [index] ≠ []
      simp

theorem reserved_idle (loops : run.Loops settings) (books : run.Books settings none)
    (idle : run.active = []) (running : run.stopped = none) (account : Account) :
    run.ledger.reserved account = 0 := by
  rw [books.2.balanced.reserved, outstanding_idle loops books idle, books.2.clean running]
  simp

theorem admitted_busy (valid : Valid settings plans) (loops : run.Loops settings)
    (books : run.Books settings none) (running : run.stopped = none)
    (left : ¬ (run.pending = [] ∧ run.active = [])) :
    (run.admitNative settings run.pending []).active ≠ [] := by
  by_cases idle : run.active = []
  · refine admitNative_progress idle (fun index _ => ?_) ?_
    · exact fits_of_empty (valid.resources index) (reserved_idle loops books idle running)
    · have groups := settings.maxGroups_pos
      by_cases room : run.held.length < settings.maxGroups
      · obtain ⟨index, mem⟩ := exists_mem_of_ne_nil _ fun none_ => left ⟨none_, idle⟩
        exact ⟨index, mem, Or.inr room⟩
      · -- A held group with nothing active has a pending plan.
        obtain ⟨group, mem⟩ := exists_mem_of_ne_nil run.held (by
          rintro none_
          rw [none_] at room
          simp only [length_nil] at room
          omega)
        obtain ⟨-, open_⟩ := (books.1.isHeld group).mp mem
        rcases open_ with ⟨index, rfl, waiting | active⟩ | wrong
        · exact ⟨index, waiting, Or.inl mem⟩
        · rw [idle] at active
          cases active
        · cases wrong
  · exact admitNative_active idle

theorem admitNative_calm (calm : run.Calm) (indices : List (Fin plans.length))
    (blocked : List String) : (run.admitNative settings indices blocked).Calm := by
  induction indices generalizing blocked run with
  | nil => exact calm
  | cons index rest ih =>
    unfold admitNative
    split_ifs
    · exact calm
    · exact ih calm blocked
    · exact ih calm blocked
    · exact ih calm _
    · refine ih ?_ blocked
      exact calm

theorem admitWave_calm (calm : run.Calm) (index : Fin plans.length) :
    (run.admitWave (planAt plans index).group).active ≠ [] ∧
      (run.admitWave (planAt plans index).group).Calm := by
  unfold admitWave
  rw [foldl_admitPlan]
  refine ⟨?_, calm⟩
  exact append_ne_nil_of_right_ne_nil _ (ne_nil_of_mem (mem_indicesOf.mpr rfl))

/-! ### Steps -/

theorem await_calm (calm : run.Calm) (busy : run.active ≠ []) (later : ℚ) :
    run.await settings later = { run with place := .waiting } := by
  rcases run.await_cases settings later with ⟨idle, -⟩ | ⟨limited, -⟩ | ⟨-, same⟩
  · exact absurd idle busy
  · rw [calm.2.2.1] at limited
    cases limited
  · exact same

/-- What the loop body comes to in an undisturbed run: the end when nothing is left, the hook of a new
wave, or the wait with something active. -/
theorem iterate_calm (valid : Valid settings plans) (loops : run.Loops settings)
    (books : run.Books settings none) (calm : run.Calm) (now later : ℚ) :
    (run.pending = [] ∧ run.active = [] ∧ run.iterate settings now later = run.finish) ∨
    (settings.policy = .terminalWaves ∧ ∃ group,
      run.iterate settings now later = { run with place := .admitHook group }) ∨
    (settings.policy = .terminalWaves ∧ run.active ≠ [] ∧
      run.iterate settings now later = { run with place := .waiting }) ∨
    (settings.policy = .nativeGroups ∧ (run.admitNative settings run.pending []).active ≠ [] ∧
      run.iterate settings now later
        = { (run.admitNative settings run.pending []) with place := .waiting }) := by
  have observed : run.observe settings now = run := by
    unfold observe
    rw [if_neg (by simp [calm.2.1])]
  unfold iterate
  split_ifs with exhausted
  · exact Or.inl ⟨exhausted.1, exhausted.2, rfl⟩
  · simp only [observed]
    split
    case h_1 _ native =>
      have busy := admitted_busy valid loops books calm.1 exhausted
      exact Or.inr (Or.inr (Or.inr ⟨native, busy, await_calm (admitNative_calm calm _ _) busy later⟩))
    case h_2 _ waves pending =>
      split_ifs with free
      · exact Or.inr (Or.inl ⟨waves, _, rfl⟩)
      · have busy : run.active ≠ [] := fun idle => free (held_idle loops books waves idle)
        exact Or.inr (Or.inr (Or.inl ⟨waves, busy, await_calm calm busy later⟩))
    case h_3 notNative notPending =>
      cases policy : settings.policy with
      | nativeGroups => exact absurd policy (notNative calm.1)
      | terminalWaves =>
        have none_ : run.pending = [] := by
          cases pending : run.pending with
          | nil => rfl
          | cons index rest => exact absurd pending (notPending _ _ calm.1 policy)
        have busy : run.active ≠ [] := fun idle => exhausted ⟨none_, idle⟩
        exact Or.inr (Or.inr (Or.inl ⟨rfl, busy, await_calm calm busy later⟩))

variable {index : Fin plans.length}

theorem Own.safe (own : run.Own) {result : EpisodeResult} (found : run.results index = some result) :
    result.safe = true := by
  obtain ⟨other, same, -, quiet⟩ := own.1 index _ (own.2 index result found)
  cases same
  simp only [EpisodeResult.stops, or_eq_false_iff, not_eq_false'] at quiet
  exact quiet.1.1.1

theorem Own.complete (own : run.Own) {outcome : Outcome} (open_ : run.outcomes index = none)
    (harmless : ∃ result, outcome = .returned result ∧ result.identity = (planAt plans index).identity ∧
      result.stops = false) :
    ({ run with outcomes := update run.outcomes index (some outcome) } : Run plans).Own := by
  refine ⟨?_, ?_⟩
  · intro other ended found
    by_cases same : other = index
    · subst same
      simp only [update_self] at found
      cases found
      exact harmless
    · simp only [update_of_ne same] at found
      exact own.1 other ended found
  · intro other result found
    have known := own.2 other result found
    show update run.outcomes index (some outcome) other = _
    rw [update_of_ne]
    · exact known
    · rintro rfl
      rw [open_] at known
      cases known

variable {rest : List (Fin plans.length)}

theorem process_flows (calm : run.Calm) {outcome : Outcome} (found : run.outcomes index = some outcome) :
    (run.process settings index rest (execute (planAt plans index) outcome)).Flows := by
  obtain ⟨running, live, open_, own⟩ := calm
  obtain ⟨result, rfl, identity, quiet⟩ := own.1 index outcome found
  have executed : execute (planAt plans index) (.returned result) = result := by
    exact if_pos identity
  rw [executed]
  obtain ⟨token, stopped, same, -, -, -, kept⟩ := process_shape settings run index rest result
  obtain ⟨rfl, rfl⟩ := kept quiet
  have next : Own { run with results := update run.results index (some result) } := by
    refine ⟨own.1, ?_⟩
    intro other value stored
    by_cases here : other = index
    · subst here
      simp only [update_self] at stored
      cases stored
      exact found
    · simp only [update_of_ne here] at stored
      exact own.2 other value stored
  rw [same]
  unfold Flows
  split
  case h_1 place | h_2 place | h_3 place => split_ifs at place
  case h_4 => exact ⟨running, live, open_, next⟩

theorem afterFinish_flows (loops : run.Loops settings) (calm : run.Calm)
    (all : ∀ other, (planAt plans other).group = (planAt plans index).group → other ∈ run.handed ∧ other
      ∉ run.active) {closure : Option Mapping} (certain : requestUncertain closure = false) :
    (run.afterFinish index rest (.returned closure)).Flows := by
  obtain ⟨running, live, open_, own⟩ := calm
  obtain ⟨token, stopped, safe, same, -, -, -, kept⟩ := afterFinish_shape run index rest
    (.returned closure)
  have siblings : ∀ sibling ∈ indicesOf plans (planAt plans index).group,
      (run.results sibling).any EpisodeResult.safe = true := by
    intro sibling mem
    obtain ⟨given, ended⟩ := all sibling (mem_indicesOf.mp mem)
    obtain ⟨result, found⟩ := isSome_iff_exists.mp (loops.tracks.missing sibling given ended)
    rw [found]
    exact own.safe found
  obtain ⟨rfl, rfl, rfl⟩ := kept ⟨closure, rfl, certain⟩ siblings
  rw [same]
  exact ⟨running, live, open_, own⟩

theorem settle_flows (tracks : run.Partitioned)
    (complete : ∀ index ∈ run.handed, (run.results index).isSome) (done : run.pending = [])
    (own : run.Own) : run.settle.Flows := by
  have every : ∀ index : Fin plans.length, index ∈ run.handed ∧
      ∃ result, run.results index = some result ∧ run.outcomes index = some (.returned result) := by
    intro index
    have handed : index ∈ run.handed := by
      by_contra absent
      have pending := (tracks.split index).mpr absent
      rw [done] at pending
      cases pending
    obtain ⟨result, found⟩ := isSome_iff_exists.mp (complete index handed)
    exact ⟨handed, result, found, own.2 index result found⟩
  choose handed result found outcome using every
  refine ⟨(finRange plans.length).map result, ?_, by simp, fun index => ⟨handed index, result index, ?_,
    outcome index⟩⟩
  · simp only [done, not_mem_nil, if_false]
    rw [show run.results = fun index => some (result index) from funext found]
    exact mapM_pure
  · simp

theorem finish_flows (calm : run.Calm) (done : run.pending = []) (idle : run.active = []) :
    run.finish.Flows := by
  refine ⟨done, ⟨calm.2.2.2.1, ?_⟩, ?_⟩
  · intro index result found
    simp only [finish, idle, not_mem_nil, if_false] at found
    exact calm.2.2.2.2 index result found
  · simp only [finish, idle, if_true]
    exact calm.2.1

variable {action : RunAction plans}
variable {next : Run plans}

/-- An undisturbed step leaves the run undisturbed. -/
theorem flows_step (valid : Valid settings plans) (tracked : run.Tracked settings)
    (accounted : run.Accounted settings) (flows : run.Flows) (guard : run.undisturbed action)
    (stepped : run.step settings action = some next) :
    next.Flows := by
  have moves := step_moves stepped
  unfold Tracked at tracked
  unfold Accounted at accounted
  unfold Flows at flows
  cases moves with
  | cancel | interrupt | interruptClose => exact guard.elim
  | complete live handed open_ =>
    cases place : run.place <;> simp only [place] at flows ⊢
    case waiting => exact ⟨⟨flows.1.1, flows.1.2.1, flows.1.2.2.1,
      flows.1.2.2.2.complete open_ guard⟩, flows.2⟩
    case closing => exact ⟨flows.1, flows.2.1.complete open_ guard, flows.2.2⟩
    case returned ordered => exact absurd place (live ordered)
    all_goals exact ⟨flows.1, flows.2.1, flows.2.2.1, flows.2.2.2.complete open_ guard⟩
  | start place =>
    simp only [place] at flows
    unfold startNext
    split
    · exact flows
    · rw [if_neg (by simp [flows.2.1])]
      split
      · exact flows
      · split_ifs <;> exact flows
  | started place =>
    obtain ⟨closure, rfl, -⟩ := guard
    simp only [place] at flows
    exact flows
  | iterate place =>
    rename_i now later
    simp only [place] at tracked accounted flows
    rcases iterate_calm valid tracked accounted flows now later with
      ⟨done, idle, same⟩ | ⟨-, group, same⟩ | ⟨-, busy, same⟩ | ⟨-, busy, same⟩
    · rw [same]
      exact finish_flows flows done idle
    · rw [same]
      exact flows
    · rw [same]
      exact ⟨flows, busy⟩
    · rw [same]
      exact ⟨admitNative_calm flows _ _, busy⟩
  | admitted place =>
    rename_i group outcome later
    obtain ⟨closure, rfl, -⟩ := guard
    simp only [place] at tracked flows
    obtain ⟨loops, -, waves, index, present, rfl⟩ := tracked
    obtain ⟨busy, calm⟩ := admitWave_calm flows index
    simp only [afterAdmit, flows.2.1, false_eq_true, if_false]
    rw [await_calm calm busy later]
    exact ⟨calm, busy⟩
  | wake place distinct finished =>
    simp only [place] at flows
    exact flows.1
  | again place =>
    simp only [place] at flows
    exact flows
  | process place found =>
    simp only [place] at flows
    exact process_flows flows found
  | finished place =>
    rename_i index rest outcome later
    obtain ⟨closure, rfl, certain⟩ := guard
    simp only [place] at tracked accounted flows
    exact afterFinish_flows tracked.1 flows accounted.2.2 (certain index rest place)
  | settle place =>
    simp only [place] at tracked flows
    exact settle_flows tracked.1 tracked.2 flows.1 flows.2.1
  | closed place =>
    rename_i backend rest outcome
    simp only [place] at flows
    cases outcome <;> exact flows

/-! ### The end of the loop -/

def remaining (run : Run plans) : ℕ :=
  match run.place with
  | .starting benchmarks | .startHook benchmarks => benchmarks.length + run.started.length + 2
  | .closing backends => backends.length + 1
  | .returned _ => 0
  | _ => run.started.length + 2

def openTasks (run : Run plans) : ℕ :=
  (finRange plans.length).countP fun index => (run.outcomes index).isNone

def weight (run : Run plans) : ℕ :=
  2 * run.pending.length + run.active.length + run.openTasks + run.remaining

def rank (run : Run plans) : ℕ :=
  match run.place with
  | .starting benchmarks => 2 * benchmarks.length + 10
  | .startHook benchmarks => 2 * benchmarks.length + 11
  | .finishHook _ _ => 6
  | .draining [] => 5
  | .top => 4
  | .admitHook _ => 3
  | .waiting => 2
  | .draining (_ :: _) => 1
  | .closing _ | .returned _ => 0

theorem openTasks_complete (open_ : run.outcomes index = none) (outcome : Outcome) :
    openTasks { run with outcomes := update run.outcomes index (some outcome) } + 1 = run.openTasks := by
  refine (countP_succ (nodup_finRange plans.length) (mem_finRange index) ?_ ?_ ?_).symm
  · simp
  · simp [open_]
  · intro other different
    simp [update_of_ne different]

theorem complete_weight (open_ : run.outcomes index = none) (outcome : Outcome) :
    weight { run with outcomes := update run.outcomes index (some outcome) } < run.weight := by
  have fewer := openTasks_complete open_ outcome
  have same : remaining { run with outcomes := update run.outcomes index (some outcome) }
      = run.remaining := rfl
  unfold weight
  simp only
  omega

theorem admitNative_weight (settings : Settings) (indices : List (Fin plans.length)) (distinct : indices.Nodup)
    (present : ∀ index ∈ indices, index ∈ run.pending) (blocked : List String) :
    2 * (run.admitNative settings indices blocked).pending.length
        + (run.admitNative settings indices blocked).active.length
      ≤ 2 * run.pending.length + run.active.length ∧
    (run.admitNative settings indices blocked).outcomes = run.outcomes ∧
    (run.admitNative settings indices blocked).started = run.started ∧
    run.handed ⊆ (run.admitNative settings indices blocked).handed := by
  refine admitNative_induction (fun current =>
    2 * current.pending.length + current.active.length ≤ 2 * run.pending.length + run.active.length ∧
      current.outcomes = run.outcomes ∧ current.started = run.started ∧
      run.handed ⊆ current.handed) ?_ distinct present
    ⟨le_rfl, rfl, rfl, List.Subset.refl _⟩
  rintro current index ⟨lighter, outcomes, started, handed⟩ inside - - -
  refine ⟨?_, outcomes, started, List.Subset.trans handed (subset_append_left _ _)⟩
  show 2 * (current.pending.erase index).length + (current.active ++ [index]).length ≤ _
  rw [length_erase_of_mem inside, length_append, length_singleton]
  have positive := length_pos_of_mem inside
  omega

theorem wave_weight (loops : run.Loops settings) (waves : settings.policy = .terminalWaves)
    (present : index ∈ run.pending) :
    (run.pending.diff (indicesOf plans (planAt plans index).group)).length
      + (indicesOf plans (planAt plans index).group).length = run.pending.length := by
  have inside : indicesOf plans (planAt plans index).group ⊆ run.pending := by
    intro other mem
    exact loops.whole waves index other (mem_indicesOf.mp mem).symm present
  have split := subperm_append_diff_self_of_count_le
    (subperm_ext_iff.mp (List.Nodup.subperm (indicesOf_nodup plans _) inside))
  have lengths := split.length_eq
  rw [length_append] at lengths
  omega

section

variable (valid : Valid settings plans) (tracked : run.Tracked settings)
  (accounted : run.Accounted settings) (flows : run.Flows) (guard : run.undisturbed action)
  (stepped : run.step settings action = some next)
include valid tracked accounted flows guard stepped

/-- Every undisturbed step uses something up or moves on in the turn, except a wake without a finished
task; it forgets neither a handed plan nor an outcome, and an outcome uses something up. -/
theorem progress_step :
    run.handed ⊆ next.handed ∧ (next.outcomes = run.outcomes ∨ next.weight < run.weight) ∧
      (next.weight < run.weight ∨
        next.weight = run.weight ∧ (next.rank < run.rank ∨ action = .wake [])) := by
  have moves := step_moves stepped
  unfold Tracked at tracked
  unfold Accounted at accounted
  unfold Flows at flows
  have unchanged := List.Subset.refl run.handed
  cases moves with
  | cancel | interrupt | interruptClose => exact guard.elim
  | complete live handed open_ =>
    have less := complete_weight open_
    exact ⟨unchanged, Or.inr (less _), Or.inl (less _)⟩
  | start place =>
    simp only [place] at flows
    unfold startNext
    split
    · refine ⟨unchanged, Or.inl rfl, Or.inr ⟨?_, Or.inl ?_⟩⟩
      · simp [weight, remaining, openTasks, place]
      · simp [rank, place]
    · rw [if_neg (by simp [flows.2.1])]
      split
      · refine ⟨unchanged, Or.inl rfl, Or.inl ?_⟩
        simp [weight, remaining, openTasks, place]
      · split_ifs
        · refine ⟨unchanged, Or.inl rfl, Or.inl ?_⟩
          simp [weight, remaining, openTasks, place]
        · refine ⟨unchanged, Or.inl rfl, Or.inr ⟨?_, Or.inl ?_⟩⟩
          · simp [weight, remaining, openTasks, place]
            omega
          · simp [rank, place]
            omega
  | started place =>
    obtain ⟨closure, rfl, -⟩ := guard
    refine ⟨unchanged, Or.inl rfl, Or.inr ⟨?_, Or.inl ?_⟩⟩
    · simp [afterStart, weight, remaining, openTasks, place]
    · simp [afterStart, rank, place]
  | iterate place =>
    rename_i now later
    simp only [place] at tracked accounted flows
    rcases iterate_calm valid tracked accounted flows now later with
      ⟨done, idle, same⟩ | ⟨-, group, same⟩ | ⟨-, busy, same⟩ | ⟨-, busy, same⟩
    all_goals rw [same]
    · refine ⟨unchanged, Or.inl rfl, Or.inl ?_⟩
      simp only [weight, remaining, openTasks, finish, place]
      split_ifs <;> simp
    iterate 2
      · exact ⟨unchanged, Or.inl rfl,
          Or.inr ⟨by simp [weight, remaining, openTasks, place], Or.inl (by simp [rank, place])⟩⟩
    · obtain ⟨lighter, outcomes, started, handed⟩ := admitNative_weight settings
        run.pending tracked.tracks.pendingNodup (fun _ member => member) []
      have lower : rank { (run.admitNative settings run.pending []) with place := .waiting }
          < run.rank := by
        simp [rank, place]
      have heavier : weight { (run.admitNative settings run.pending []) with place := .waiting }
          ≤ run.weight := by
        simp only [weight, remaining, openTasks, place, outcomes, started]
        omega
      refine ⟨handed, Or.inl outcomes, ?_⟩
      rcases heavier.lt_or_eq with less | equal
      · exact Or.inl less
      · exact Or.inr ⟨equal, Or.inl lower⟩
  | admitted place =>
    rename_i group outcome later
    obtain ⟨closure, rfl, -⟩ := guard
    simp only [place] at tracked flows
    obtain ⟨loops, -, waves, index, present, rfl⟩ := tracked
    have lengths := wave_weight loops waves present
    have some_ : 0 < (indicesOf plans (planAt plans index).group).length :=
      length_pos_of_mem (mem_indicesOf.mpr rfl)
    obtain ⟨busy, calm⟩ := admitWave_calm flows index
    simp only [afterAdmit, flows.2.1, false_eq_true, if_false]
    rw [await_calm calm busy later]
    unfold admitWave
    rw [foldl_admitPlan]
    refine ⟨subset_append_left _ _, Or.inl rfl, Or.inl ?_⟩
    simp only [weight, remaining, openTasks, place, hold, length_append]
    omega
  | wake place distinct finished =>
    rename_i done
    refine ⟨unchanged, Or.inl rfl, Or.inr ⟨by simp [weight, remaining, openTasks, place], ?_⟩⟩
    cases done with
    | nil => exact Or.inr rfl
    | cons index rest => exact Or.inl (by simp [rank, place])
  | again place =>
    exact ⟨unchanged, Or.inl rfl,
      Or.inr ⟨by simp [weight, remaining, openTasks, place], Or.inl (by simp [rank, place])⟩⟩
  | process place found =>
    rename_i index rest now later outcome
    simp only [place] at tracked
    have member := (tracked.2.2 index mem_cons_self).1
    have positive := length_pos_of_mem member
    obtain ⟨token, stopped, same, -⟩ := process_shape settings run index rest
      (execute (planAt plans index) outcome)
    have left : remaining (run.process settings index rest (execute (planAt plans index) outcome))
        = run.started.length + 2 := by
      rw [same]
      split_ifs <;> rfl
    rw [same] at left ⊢
    refine ⟨unchanged, Or.inl rfl, Or.inl ?_⟩
    simp only [weight, left, openTasks, length_erase_of_mem member]
    simp only [remaining, place]
    omega
  | finished place =>
    rename_i index rest outcome later
    obtain ⟨token, stopped, safe, same, -⟩ := afterFinish_shape run index rest outcome
    rw [same]
    refine ⟨unchanged, Or.inl rfl, Or.inr ⟨by simp [weight, remaining, openTasks, place], Or.inl ?_⟩⟩
    cases rest <;> simp [rank, place]
  | settle place =>
    refine ⟨unchanged, Or.inl rfl, Or.inl ?_⟩
    simp [settle, weight, remaining, openTasks, place]
  | closed place =>
    rename_i backend rest outcome
    cases outcome <;> refine ⟨unchanged, Or.inl rfl, Or.inl ?_⟩ <;>
      simp [afterClose, stop, weight, remaining, openTasks, place]

theorem weight_step :
    next.weight < run.weight ∨
      next.weight = run.weight ∧ (next.rank < run.rank ∨ action = .wake []) :=
  (progress_step valid tracked accounted flows guard stepped).2.2

theorem kept_step :
    run.handed ⊆ next.handed ∧ (next.outcomes = run.outcomes ∨ next.weight < run.weight) :=
  (progress_step valid tracked accounted flows guard stepped).imp_right And.left

end

/-- Only a returned run has no undisturbed step. -/
theorem undisturbed_enabled (tracked : run.Tracked settings)
    (running : ∀ ordered, run.place ≠ .returned ordered) :
    ∃ action next, run.undisturbed action ∧ run.step settings action = some next := by
  unfold Tracked at tracked
  cases place : run.place <;> simp only [place] at tracked
  case starting benchmarks =>
    exact ⟨.proceed 0 0, run.startNext settings benchmarks, trivial, by simp [step, place]⟩
  case startHook rest =>
    refine ⟨.hook (.returned none) 0, run.afterStart rest (.returned none), ⟨none, rfl, ?_⟩,
      by simp [step, place]⟩
    intro index done same
    rw [place] at same
    cases same
  case top => exact ⟨.proceed 0 0, run.iterate settings 0 0, trivial, by simp [step, place]⟩
  case admitHook group =>
    refine ⟨.hook (.returned none) 0, run.afterAdmit settings group 0 (.returned none),
      ⟨none, rfl, ?_⟩, by simp [step, place]⟩
    intro index done same
    rw [place] at same
    cases same
  case waiting =>
    let done := run.active.filter fun index => (run.outcomes index).isSome
    refine ⟨.wake done, { run with place := .draining done }, trivial, ?_⟩
    unfold step
    simp only [place]
    exact if_pos ⟨tracked.tracks.activeNodup.filter _, fun index => mem_filter⟩
  case draining done =>
    cases done with
    | nil => exact ⟨.proceed 0 0, { run with place := .top }, trivial, by simp [step, place]⟩
    | cons index rest =>
      obtain ⟨outcome, found⟩ :=
        isSome_iff_exists.mp (tracked.2.2 index mem_cons_self).2
      exact ⟨.proceed 0 0, run.process settings index rest (execute (planAt plans index) outcome),
        trivial, by simp [step, place, found]⟩
  case finishHook index rest =>
    exact ⟨.hook (.returned none) 0, run.afterFinish index rest (.returned none),
      ⟨none, rfl, fun _ _ _ => rfl⟩, by simp [step, place]⟩
  case closing backends =>
    cases backends with
    | nil => exact ⟨.proceed 0 0, run.settle, trivial, by simp [step, place]⟩
    | cons backend rest =>
      exact ⟨.closed .closed, run.afterClose rest .closed, trivial, by simp [step, place]⟩
  case returned ordered => exact absurd place (running ordered)

end Run

/-! ### Runs -/

theorem flows_run {settings : Settings} {plans : List EpisodePlan} {run : Run plans}
    (accepted : validate settings plans = .ok ())
    (path : (runSystem settings plans).Leads undisturbed (fresh plans .fresh) run) :
    run.Tracked settings ∧ run.Accounted settings ∧ run.Flows := by
  refine path.preserves
    (fun state => state.Tracked settings ∧ state.Accounted settings ∧ state.Flows) ?_ ?_
  · rintro before action after guard stepped ⟨tracked, accounted, flows⟩
    have valid := validate_valid accepted
    exact ⟨tracked_step tracked stepped, accounted_step valid tracked accounted stepped,
      flows_step valid tracked accounted flows guard stepped⟩
  · refine ⟨fresh_tracked _, fresh_accounted _, rfl, rfl, rfl, ?_, ?_⟩ <;> simp [fresh]

/-- In an undisturbed run the loop body always ends with something active, with a wave about to be
admitted, or because no plan is left; a run that returns has executed every plan; before that a step is
always possible; and a run that never ends has a plan whose backend never does. -/
theorem run_completes (settings : Settings) (plans : List EpisodePlan)
    (accepted : validate settings plans = .ok ()) (run : Run plans)
    (path : (runSystem settings plans).Leads undisturbed (fresh plans .fresh) run) :
    (run.place = .top → ∀ now later next, run.step settings (.proceed now later) = some next →
      (run.pending = [] ∧ run.active = []) ∨ (∃ group, next.place = .admitHook group) ∨
        next.place = .waiting ∧ next.active ≠ []) ∧
    (∀ backends, run.place = .closing backends → run.pending = []) ∧
    (∀ ordered, run.place = .returned ordered → ∃ list, ordered = some list ∧ list.length = plans.length ∧
        ∀ index : Fin plans.length, index ∈ run.handed ∧
          ∃ own, list[index.val]? = some own ∧ run.outcomes index = some (.returned own)) ∧
    ((∀ ordered, run.place ≠ .returned ordered) →
      ∃ action next, run.undisturbed action ∧ run.step settings action = some next) ∧
    (∀ course : ℕ → Run plans, course 0 = run →
      (∀ time, (runSystem settings plans).Step undisturbed (course time) (course (time + 1))) →
      ∃ index start, ∀ time, start ≤ time →
        index ∈ (course time).handed ∧ (course time).outcomes index = none) := by
  have valid := validate_valid accepted
  obtain ⟨tracked, accounted, flows⟩ := flows_run accepted path
  refine ⟨?_, ?_, ?_, undisturbed_enabled tracked, ?_⟩
  · intro place now later next stepped
    simp only [Run.Tracked, Run.Accounted, Run.Flows, place] at tracked accounted flows
    have same : run.iterate settings now later = next := by
      simpa [step, place] using stepped
    rcases iterate_calm valid tracked accounted flows now later with
      ⟨done, idle, -⟩ | ⟨-, group, reached⟩ | ⟨-, busy, reached⟩ | ⟨-, busy, reached⟩
    · exact Or.inl ⟨done, idle⟩
    · exact Or.inr (Or.inl ⟨group, by rw [← same, reached]⟩)
    all_goals exact Or.inr (Or.inr (by rw [← same, reached]; exact ⟨rfl, busy⟩))
  · intro backends place
    simp only [Run.Flows, place] at flows
    exact flows.1
  · intro ordered place
    simp only [Run.Flows, place] at flows
    exact flows
  · rintro course rfl moves
    have along : ∀ time, (runSystem settings plans).Leads undisturbed (course 0) (course time) := by
      intro time
      induction time with
      | zero => exact System.Leads.refl _
      | succ time known => exact known.tail (moves time)
    have invariants := fun time => flows_run accepted (path.trans (along time))
    choose action guard stepped using moves
    obtain ⟨start, constant, idle, later, stutter⟩ := System.eventually_stutters course weight
      rank (fun time => action time = .wake []) fun time =>
        weight_step valid (invariants time).1 (invariants time).2.1 (invariants time).2.2
          (guard time) (stepped time)
    -- At the idle wake something is active and nothing active has ended.
    obtain ⟨index, handed, open_⟩ : ∃ index, index ∈ (course idle).handed ∧
        (course idle).outcomes index = none := by
      have wakes := stepped idle
      rw [stutter] at wakes
      obtain ⟨tracked, -, flows⟩ := invariants idle
      generalize course (idle + 1) = after at wakes
      cases step_moves wakes with
      | wake place distinct finished =>
        simp only [Run.Tracked, Run.Flows, place] at tracked flows
        obtain ⟨index, member⟩ := exists_mem_of_ne_nil _ flows.2
        refine ⟨index, tracked.tracks.handedOfActive index member, ?_⟩
        by_contra ended
        have := (finished index).mpr ⟨member, isSome_iff_ne_none.mpr ended⟩
        cases this
    refine ⟨index, idle, fun time after => ?_⟩
    obtain ⟨extra, rfl⟩ := Nat.exists_eq_add_of_le after
    induction extra with
    | zero => exact ⟨handed, open_⟩
    | succ extra known =>
      obtain ⟨before, running⟩ := known (Nat.le_add_right _ _)
      obtain ⟨tracked, accounted, flows⟩ := invariants (idle + extra)
      obtain ⟨kept, same | lighter⟩ := kept_step valid tracked accounted flows
        (guard (idle + extra)) (stepped (idle + extra))
      · exact ⟨kept before, by rw [← running]; exact congrFun same index⟩
      · have here := constant (idle + extra) (by omega)
        have next := constant (idle + extra + 1) (by omega)
        omega

/-- Both samples run, one after the other. -/
def pairRun : List (RunAction pair) :=
  [.proceed 0 0, .hook (.returned none) 0, .proceed 0 0, .proceed 0 0,
    .complete ⟨0, pair_pos⟩ (.returned (completed (kernelPlan 0) "verified")),
    .wake [⟨0, pair_pos⟩], .proceed 0 0, .proceed 0 0, .proceed 0 0,
    .complete ⟨1, by decide⟩ (.returned (completed (kernelPlan 1) "verified")),
    .wake [⟨1, by decide⟩], .proceed 0 0, .proceed 0 0, .proceed 0 0, .closed .closed, .proceed 0 0]

theorem run_completes_pair : ∃ run,
    (runSystem oneWorker pair).Leads undisturbed (fresh pair .fresh) run ∧
      ∃ list, run.place = .returned (some list) ∧ list.length = 2 ∧
        ∀ index : Fin pair.length, index ∈ run.handed ∧
          ∃ own, list[index.val]? = some own ∧ run.outcomes index = some (.returned own) := by
  have executed : ((runSystem oneWorker pair).run undisturbed (fresh pair .fresh)
      pairRun).map hasReturned = some true := by
    decide +kernel
  obtain ⟨run, finish, returns⟩ := map_eq_some_iff.mp executed
  have path := System.leads_of_run finish
  obtain ⟨ordered, place⟩ := hasReturned_iff.mp returns
  obtain ⟨-, -, returned, -⟩ := run_completes oneWorker pair pair_valid run path
  obtain ⟨list, rfl, length, executed_⟩ := returned ordered place
  exact ⟨run, path, list, place, length, executed_⟩

/-! ### A wave whose closure is uncertain -/

/-- Nobody cancels, no hook raises, and every backend returns a result that stops nothing. -/
def RunAction.harmless {plans : List EpisodePlan} : RunAction plans → Bool
  | .complete index (.returned result) =>
    result.identity == (planAt plans index).identity && !result.stops
  | .proceed _ _ | .wake _ | .closed _ | .hook (.returned _) _ => true
  | _ => false

def oneWave : Settings := { oneWorker with policy := .terminalWaves, waves := fun _ => rfl }

def otherPlan : EpisodePlan where
  identity := { (kernelPlan 0).identity with groupId := "other" }
  task := (kernelPlan 0).task
  agrees := ⟨rfl, rfl⟩

def twoWaves : List EpisodePlan := [kernelPlan 0, otherPlan]

/-- What `finish_group` of the terminal benchmark returns, without raising, while jobs are left. -/
def jobsLeft : Mapping := [("spool_terminal", .bool false), ("state", .text "job_cleanup_uncertain")]

def uncertainRun : List (RunAction twoWaves) :=
  [.proceed 0 0, .hook (.returned none) 0, .proceed 0 0, .proceed 0 0, .hook (.returned none) 0,
    .complete ⟨0, Nat.two_pos⟩ (.returned (completed (kernelPlan 0) "verified")),
    .wake [⟨0, Nat.two_pos⟩], .proceed 0 0, .hook (.returned (some jobsLeft)) 0, .proceed 0 0,
    .proceed 0 0, .closed .closed, .proceed 0 0]

/-- The run stops behind the first wave, and the second plan is never executed. -/
theorem uncertain_closure_stops : validate oneWave twoWaves = .ok () ∧
    ¬ ∀ run, (runSystem oneWave twoWaves).Leads (fun _ action => action.harmless = true)
        (fresh twoWaves .fresh) run →
      ∀ ordered, run.place = .returned ordered → ∀ index, index ∈ run.handed := by
  refine ⟨by decide +kernel, fun all => ?_⟩
  have executed : ((runSystem oneWave twoWaves).run (fun _ action => action.harmless = true)
      (fresh twoWaves .fresh) uncertainRun).map (fun run => (run.handed, run.hasReturned))
        = some ([⟨0, by decide⟩], true) := by
    decide +kernel
  obtain ⟨run, finish, same⟩ := map_eq_some_iff.mp executed
  obtain ⟨handed, returned⟩ := Prod.mk.injEq .. ▸ same
  obtain ⟨ordered, place⟩ := hasReturned_iff.mp returned
  have member := all run (System.leads_of_run finish) ordered place ⟨1, by decide⟩
  rw [handed] at member
  exact absurd member (by decide)

end TinyDSV41.Coordinator
