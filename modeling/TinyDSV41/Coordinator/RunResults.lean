/-
**`Coordinator.run` returns one honest result for each plan.**

The bookkeeping of a run is a partition: a plan is pending or was handed to its backend, and a handed
plan is active or has its result (`Tracks`). The partition survives every branch of the loop, so the
list rebuilt at the end has no gap.

* `tracked_step` — every step keeps the bookkeeping of the place it leads to.
* `halted_step` — once something has stopped the run, no step hands out a plan.
* `run_results` — what a finished run returns, and that a stop is final.
-/

import TinyDSV41.Coordinator.Run

namespace TinyDSV41.Coordinator

open List Lib System Run
open Function (update update_of_ne update_self)

/-- A result that stands for a plan handed to its backend. -/
def Answer (plans : List EpisodePlan) (outcomes : Fin plans.length → Option Outcome)
    (index : Fin plans.length) (result : EpisodeResult) : Prop :=
  (∃ outcome, outcomes index = some outcome ∧ result = execute (planAt plans index) outcome) ∨
    ∃ reason, result = unresolved (planAt plans index) reason

/-- Each plan is pending or handed, and a handed plan is active or answered. -/
structure Tracks (plans : List EpisodePlan) (pending active handed : List (Fin plans.length))
    (results : Fin plans.length → Option EpisodeResult)
    (outcomes : Fin plans.length → Option Outcome) : Prop where
  pendingNodup : pending.Nodup
  handedNodup : handed.Nodup
  activeNodup : active.Nodup
  split : ∀ index, index ∈ pending ↔ index ∉ handed
  handedOfActive : ∀ index ∈ active, index ∈ handed
  answered : ∀ index result, results index = some result →
    index ∈ handed ∧ Answer plans outcomes index result
  missing : ∀ index ∈ handed, index ∉ active → (results index).isSome

/-- The bookkeeping inside the loop: the partition, waves pending as a whole, and a stop for every
result that demands one and for a deadline. -/
structure Looping (settings : Settings) (plans : List EpisodePlan)
    (pending active handed : List (Fin plans.length))
    (results : Fin plans.length → Option EpisodeResult)
    (outcomes : Fin plans.length → Option Outcome) (stopped : Option String)
    (drainDeadline : Option ℚ) : Prop where
  tracks : Tracks plans pending active handed results outcomes
  whole : settings.policy = .terminalWaves → ∀ index other,
    (planAt plans index).group = (planAt plans other).group → index ∈ pending → other ∈ pending
  judged : ∀ index result, results index = some result → result.stops = true → stopped.isSome
  deadline : drainDeadline.isSome → stopped.isSome

namespace Run

/-- `Tracks` of a state. -/
def Partitioned (run : Run plans) : Prop :=
  Tracks plans run.pending run.active run.handed run.results run.outcomes

/-- `Looping` of a state. -/
def Loops (settings : Settings) (run : Run plans) : Prop :=
  Looping settings plans run.pending run.active run.handed run.results run.outcomes run.stopped
    run.drainDeadline

def Finished (run : Run plans) (done : List (Fin plans.length)) : Prop :=
  done.Nodup ∧ ∀ index ∈ done, index ∈ run.active ∧ (run.outcomes index).isSome

def Source (run : Run plans) (index : Fin plans.length) (result : EpisodeResult) : Prop :=
  (index ∈ run.handed ∧ ∃ own, run.outcomes index = some (.returned own) ∧
    own.identity = (planAt plans index).identity ∧ result = own) ∨
  (index ∈ run.handed ∧ ∃ reason, result = unresolved (planAt plans index) reason) ∨
  (index ∉ run.handed ∧ ∃ reason, result = notAdmitted (planAt plans index) reason)

def Tracked (settings : Settings) (run : Run plans) : Prop :=
  match run.place with
  | .starting _ | .startHook _ | .top | .waiting => run.Loops settings
  | .admitHook group => run.Loops settings ∧ run.stopped = none ∧
      settings.policy = .terminalWaves ∧
      ∃ index ∈ run.pending, (planAt plans index).group = group
  | .draining done => run.Loops settings ∧ run.Finished done
  | .finishHook _ rest => run.Loops settings ∧ run.Finished rest
  | .closing _ => run.Partitioned ∧ ∀ index ∈ run.handed, (run.results index).isSome
  | .returned ordered => ∃ list, ordered = some list ∧ list.length = plans.length ∧
      ∀ index : Fin plans.length, ∃ result, list[index.val]? = some result ∧ run.Source index result

end Run

/-! ### The partition -/

namespace Tracks

variable {plans : List EpisodePlan} {pending active handed : List (Fin plans.length)}
  {results : Fin plans.length → Option EpisodeResult}
  {outcomes : Fin plans.length → Option Outcome}

section

variable (tracks : Tracks plans pending active handed results outcomes)
include tracks

theorem admitPlan {indices : List (Fin plans.length)} (distinct : indices.Nodup)
    (present : ∀ index ∈ indices, index ∈ pending) :
    Tracks plans (pending.diff indices) (active ++ indices) (handed ++ indices) results outcomes where
  pendingNodup := tracks.pendingNodup.diff
  handedNodup := by
    refine nodup_append.mpr ⟨tracks.handedNodup, distinct, ?_⟩
    rintro index old other new rfl
    exact (tracks.split index).mp (present index new) old
  activeNodup := by
    refine nodup_append.mpr ⟨tracks.activeNodup, distinct, ?_⟩
    rintro index old other new rfl
    exact (tracks.split index).mp (present index new) (tracks.handedOfActive index old)
  split index := by
    rw [tracks.pendingNodup.mem_sdiff_iff, tracks.split, mem_append, not_or]
  handedOfActive index member := by
    rcases mem_append.mp member with old | new
    · exact mem_append_left _ (tracks.handedOfActive index old)
    · exact mem_append_right _ new
  answered index result found := by
    obtain ⟨old, answer⟩ := tracks.answered index result found
    exact ⟨List.mem_append_left _ old, answer⟩
  missing index member idle := by
    rw [mem_append, not_or] at idle
    rcases mem_append.mp member with old | new
    · exact tracks.missing index old idle.1
    · exact absurd new idle.2

theorem process {index : Fin plans.length} (mem : index ∈ active) {outcome : Outcome}
    (found : outcomes index = some outcome) :
    Tracks plans pending (active.erase index) handed
      (update results index (some (execute (planAt plans index) outcome))) outcomes where
  pendingNodup := tracks.pendingNodup
  handedNodup := tracks.handedNodup
  activeNodup := tracks.activeNodup.erase index
  split := tracks.split
  handedOfActive other inside := tracks.handedOfActive other (mem_of_mem_erase inside)
  answered other result stored := by
    by_cases same : other = index
    · subst same
      rw [update_self] at stored
      cases stored
      exact ⟨tracks.handedOfActive other mem, Or.inl ⟨outcome, found, rfl⟩⟩
    · rw [update_of_ne same] at stored
      exact tracks.answered other result stored
  missing other inside idle := by
    by_cases same : other = index
    · subst same
      rw [update_self]
      rfl
    · rw [update_of_ne same]
      exact tracks.missing other inside fun still => idle ((mem_erase_of_ne same).mpr still)

theorem abandon (reason : String) {remaining : List (Fin plans.length)}
    (fewer : remaining.Sublist active) :
    Tracks plans pending remaining handed (fun index => if index ∈ active then
      some (unresolved (planAt plans index) reason) else results index) outcomes where
  pendingNodup := tracks.pendingNodup
  handedNodup := tracks.handedNodup
  activeNodup := tracks.activeNodup.sublist fewer
  split := tracks.split
  handedOfActive index inside := tracks.handedOfActive index (fewer.mem inside)
  answered index result stored := by
    split_ifs at stored with inside
    · cases stored
      exact ⟨tracks.handedOfActive index inside, Or.inr ⟨reason, rfl⟩⟩
    · exact tracks.answered index result stored
  missing index inside _ := by
    split_ifs with open_
    · rfl
    · exact tracks.missing index inside open_

theorem complete {index : Fin plans.length} (open_ : outcomes index = none) (outcome : Outcome) :
    Tracks plans pending active handed results (update outcomes index (some outcome)) where
  pendingNodup := tracks.pendingNodup
  handedNodup := tracks.handedNodup
  activeNodup := tracks.activeNodup
  split := tracks.split
  handedOfActive := tracks.handedOfActive
  answered other result stored := by
    obtain ⟨mem, answer⟩ := tracks.answered other result stored
    refine ⟨mem, ?_⟩
    rcases answer with ⟨old, found, same⟩ | given
    · refine Or.inl ⟨old, ?_, same⟩
      rw [update_of_ne]
      · exact found
      · rintro rfl
        rw [open_] at found
        cases found
    · exact Or.inr given
  missing := tracks.missing

end

end Tracks

/-! ### The loop -/

namespace Looping

variable {settings : Settings} {plans : List EpisodePlan}
  {pending active handed : List (Fin plans.length)}
  {results : Fin plans.length → Option EpisodeResult}
  {outcomes : Fin plans.length → Option Outcome} {stopped : Option String}
  {drainDeadline : Option ℚ}

section

variable (loops : Looping settings plans pending active handed results outcomes stopped drainDeadline)
include loops

theorem stop {later : Option String} {deadline : Option ℚ} (kept : stopped.isSome → later.isSome)
    (limited : deadline.isSome → later.isSome) :
    Looping settings plans pending active handed results outcomes later deadline where
  tracks := loops.tracks
  whole := loops.whole
  judged index result found stops := kept (loops.judged index result found stops)
  deadline := limited

theorem complete (open_ : outcomes index = none) (outcome : Outcome) :
    Looping settings plans pending active handed results
      (update outcomes index (some outcome)) stopped drainDeadline where
  tracks := loops.tracks.complete open_ outcome
  whole := loops.whole
  judged := loops.judged
  deadline := loops.deadline

theorem admitOne (native : settings.policy = .nativeGroups)
    (present : index ∈ pending) :
    Looping settings plans (pending.erase index) (active ++ [index]) (handed ++ [index]) results
      outcomes stopped drainDeadline where
  tracks := by
    have next := loops.tracks.admitPlan (nodup_singleton index) (by simpa using present)
    simpa [diff_cons] using next
  whole waves := by simp [native] at waves
  judged := loops.judged
  deadline := loops.deadline

theorem admitWave (waves : settings.policy = .terminalWaves)
    (present : index ∈ pending) :
    Looping settings plans (pending.diff (indicesOf plans (planAt plans index).group))
      (active ++ indicesOf plans (planAt plans index).group)
      (handed ++ indicesOf plans (planAt plans index).group) results outcomes stopped
      drainDeadline where
  tracks := by
    refine loops.tracks.admitPlan ((nodup_finRange _).filter _) ?_
    intro other member
    have group : (planAt plans other).group = (planAt plans index).group := by
      simpa [indicesOf] using member
    exact loops.whole waves index other group.symm present
  whole _ first second same member := by
    rw [loops.tracks.pendingNodup.mem_sdiff_iff] at member ⊢
    refine ⟨loops.whole waves first second same member.1, ?_⟩
    intro inside
    refine member.2 ?_
    simpa [indicesOf, same] using inside
  judged := loops.judged
  deadline := loops.deadline

end

end Looping

/-! ### Steps -/

namespace Run

variable {settings : Settings} {plans : List EpisodePlan} {run : Run plans}

theorem finish_tracked (tracks : run.Partitioned) : run.finish.Tracked settings := by
  refine ⟨tracks.abandon _ (List.Sublist.refl _), ?_⟩
  intro index mem
  show (if index ∈ run.active then some _ else run.results index).isSome
  split_ifs with open_
  · rfl
  · exact tracks.missing index mem open_

section

variable (loops : run.Loops settings)
include loops

theorem await_tracked (later : ℚ) : (run.await settings later).Tracked settings := by
  rcases run.await_cases settings later with ⟨-, same⟩ | ⟨-, same⟩ | ⟨-, same⟩
  · rw [same]
    exact finish_tracked loops.tracks
  · rw [same]
    exact finish_tracked (loops.tracks.abandon _ (nil_sublist _))
  · rw [same]
    exact loops

theorem iterate_tracked (now later : ℚ) : (run.iterate settings now later).Tracked settings := by
  unfold iterate
  split_ifs with exhausted
  · exact finish_tracked loops.tracks
  · obtain ⟨stopped, deadline, same, kept, -, limited⟩ := run.observe_shape settings now
    have observed : (run.observe settings now).Loops settings := by
      rw [same]
      exact loops.stop (fun before => kept (Or.inl before)) (limited loops.deadline)
    simp only
    split
    case h_1 policy =>
      refine await_tracked ?_ later
      refine admitNative_induction (fun current => current.Loops settings) ?_
        observed.tracks.pendingNodup (fun _ mem => mem) observed
      intro current index known present _ _ _
      exact Looping.admitOne known policy present
    case h_2 none_ waves pending =>
      split_ifs with idle
      · refine ⟨observed, none_, waves, _, ?_, rfl⟩
        rw [pending]
        exact mem_cons_self
      · exact await_tracked observed later
    case h_3 => exact await_tracked observed later

theorem halt (reason : String) : ({ run with stopped := some reason } : Run plans).Loops settings :=
  loops.stop (fun _ => rfl) fun _ => rfl

theorem afterAdmit_tracked {group : GroupKey} (waves : settings.policy = .terminalWaves) (present : index ∈ run.pending)
    (same : (planAt plans index).group = group) (later : ℚ) (outcome : HookOutcome) :
    (run.afterAdmit settings group later outcome).Tracked settings := by
  cases outcome with
  | returned closure =>
    simp only [afterAdmit]
    split_ifs with cancelled
    · exact await_tracked (halt loops _) later
    · refine await_tracked ?_ later
      subst same
      unfold admitWave
      rw [foldl_admitPlan]
      exact loops.admitWave waves present
  | raised text => exact await_tracked (halt loops _) later
  | cancelled => exact finish_tracked loops.tracks

variable {rest : List (Fin plans.length)}

theorem process_tracked (finished : run.Finished (index :: rest))
    {outcome : Outcome} (found : run.outcomes index = some outcome) :
    (run.process settings index rest (execute (planAt plans index) outcome)).Tracked settings := by
  obtain ⟨token, stopped, same, kept, -, raised, -⟩ := process_shape settings run index rest
    (execute (planAt plans index) outcome)
  obtain ⟨absent, distinct⟩ := nodup_cons.mp finished.1
  have member := (finished.2 index mem_cons_self).1
  have next : Looping settings plans run.pending (run.active.erase index) run.handed
      (update run.results index (some (execute (planAt plans index) outcome)))
      run.outcomes stopped run.drainDeadline := by
    refine ⟨loops.tracks.process member found, loops.whole, ?_, fun limit =>
      kept (loops.deadline limit)⟩
    intro other result stored stops
    by_cases here : other = index
    · subst here
      rw [update_self] at stored
      cases stored
      exact raised stops
    · rw [update_of_ne here] at stored
      exact kept (loops.judged other result stored stops)
  have remaining : rest.Nodup ∧ ∀ other ∈ rest,
      other ∈ run.active.erase index ∧ (run.outcomes other).isSome := by
    refine ⟨distinct, ?_⟩
    intro other inside
    obtain ⟨active, ended⟩ := finished.2 other (mem_cons_of_mem _ inside)
    refine ⟨(mem_erase_of_ne ?_).mpr active, ended⟩
    rintro rfl
    exact absent inside
  rw [same]
  by_cases last : run.completed (planAt plans index).group + 1 = expected plans (planAt plans index).group
  · cases policy : settings.policy <;> simp only [last, true_and, reduceCtorEq, if_true, if_false]
    all_goals exact ⟨next, remaining⟩
  · simp only [last, false_and, if_false]
    exact ⟨next, remaining⟩

theorem afterFinish_tracked (finished : run.Finished rest)
    (outcome : HookOutcome) :
    (run.afterFinish index rest outcome).Tracked settings := by
  obtain ⟨token, stopped, safe, same, kept, -⟩ := afterFinish_shape run index rest outcome
  rw [same]
  exact ⟨loops.stop kept fun limit => kept (loops.deadline limit), finished⟩

end

theorem settle_tracked (tracks : run.Partitioned)
    (complete : ∀ index ∈ run.handed, (run.results index).isSome) :
    run.settle.Tracked settings := by
  unfold settle
  generalize (if run.token.cancelled = true then
    some (orText run.stopped (orText run.token.reason "cancelled")) else run.stopped) = stopped
  -- Every plan has a result: its own, or the refusal of a pending one.
  have every : ∀ index : Fin plans.length, ∃ result, (if index ∈ run.pending then
        some (notAdmitted (planAt plans index) (orText stopped "not_admitted"))
      else run.results index) = some result ∧ run.Source index result := by
    intro index
    by_cases pending : index ∈ run.pending
    · exact ⟨_, if_pos pending, Or.inr (Or.inr ⟨(tracks.split index).mp pending, _, rfl⟩)⟩
    · have handed : index ∈ run.handed := by
        by_contra absent
        exact pending ((tracks.split index).mpr absent)
      obtain ⟨result, found⟩ := Option.isSome_iff_exists.mp (complete index handed)
      refine ⟨result, by rw [if_neg pending, found], ?_⟩
      obtain ⟨-, answer⟩ := tracks.answered index result found
      rcases answer with ⟨outcome, ended, rfl⟩ | ⟨reason, rfl⟩
      · rcases execute_cases (planAt plans index) outcome with ⟨own, rfl, identity, same⟩ | ⟨reason, same⟩
        · exact Or.inl ⟨handed, own, ended, identity, same⟩
        · exact Or.inr (Or.inl ⟨handed, reason, same⟩)
      · exact Or.inr (Or.inl ⟨handed, reason, rfl⟩)
  choose result found source using every
  refine ⟨(finRange plans.length).map result, ?_, by simp, ?_⟩
  · rw [show (fun index => if index ∈ run.pending then
        some (notAdmitted (planAt plans index) (orText stopped "not_admitted"))
      else run.results index) = fun index => some (result index) from funext found]
    exact mapM_pure
  · intro index
    refine ⟨result index, ?_, source index⟩
    simp

theorem tracked_step {action : RunAction plans} {next : Run plans} (tracked : run.Tracked settings)
    (stepped : run.step settings action = some next) : next.Tracked settings := by
  have moves := step_moves stepped
  unfold Tracked at tracked
  cases moves with
  | cancel live =>
    cases place : run.place with
    | returned ordered => exact absurd place (live ordered)
    | _ =>
      simp only [place] at tracked ⊢
      exact tracked
  | complete live handed open_ =>
    rename_i index outcome
    have ended : ∀ done, run.Finished done →
        Finished { run with outcomes := update run.outcomes index (some outcome) } done := by
      refine fun done finished => ⟨finished.1, fun other mem => ?_⟩
      obtain ⟨active, known⟩ := finished.2 other mem
      refine ⟨active, ?_⟩
      by_cases same : other = index
      · subst same
        simp
      · simpa [update_of_ne same] using known
    cases place : run.place <;> simp only [place] at tracked ⊢
    case starting | startHook | top | waiting => exact Looping.complete tracked open_ outcome
    case admitHook => exact ⟨Looping.complete tracked.1 open_ outcome, tracked.2⟩
    case draining | finishHook =>
      exact ⟨Looping.complete tracked.1 open_ outcome, ended _ tracked.2⟩
    case closing => exact ⟨Tracks.complete tracked.1 open_ outcome, tracked.2⟩
    case returned ordered => exact absurd place (live ordered)
  | start place =>
    simp only [place] at tracked
    unfold startNext
    split
    · exact tracked
    · split_ifs with cancelled
      · exact halt tracked _
      · split
        · exact tracked
        · split_ifs <;> exact tracked
  | started place =>
    rename_i rest outcome later
    simp only [place] at tracked
    cases outcome with
    | returned closure => exact tracked
    | raised | cancelled => exact finish_tracked tracked.tracks
  | iterate place =>
    simp only [place] at tracked
    exact iterate_tracked tracked _ _
  | admitted place =>
    simp only [place] at tracked
    obtain ⟨loops, -, waves, index, present, same⟩ := tracked
    exact afterAdmit_tracked loops waves present same _ _
  | wake place distinct finished =>
    simp only [place] at tracked
    exact ⟨tracked, distinct, fun index => (finished index).mp⟩
  | interrupt place =>
    simp only [place] at tracked
    exact tracked
  | again place =>
    simp only [place] at tracked
    exact tracked.1
  | process place found =>
    simp only [place] at tracked
    exact process_tracked tracked.1 tracked.2 found
  | finished place =>
    simp only [place] at tracked
    exact afterFinish_tracked tracked.1 tracked.2 _
  | settle place =>
    simp only [place] at tracked
    exact settle_tracked tracked.1 tracked.2
  | closed place =>
    rename_i backend rest outcome
    simp only [place] at tracked
    cases outcome <;> exact tracked
  | interruptClose place =>
    simp only [place] at tracked
    simp only [cancelToken, place]
    exact tracked

theorem fresh_tracked (token : CancellationToken) : (fresh plans token).Tracked settings := by
  refine ⟨⟨List.nodup_finRange _, nodup_nil, nodup_nil, ?_, ?_, ?_, ?_⟩, ?_, ?_, ?_⟩
  all_goals simp [fresh]

/-! ### Stopping -/

/-- The loop is over, or something has stopped it. -/
def Halted (run : Run plans) : Prop :=
  run.stopped.isSome ∨ run.token.cancelled = true ∨
    match run.place with
    | .closing _ | .returned _ => True
    | _ => False

/-- The coordinator has seen a reason to stop: it recorded one, the token is cancelled, or a result
demands it. -/
def Observed (run : Run plans) : Prop :=
  run.stopped.isSome ∨ run.token.cancelled = true ∨
    ∃ index result, run.results index = some result ∧ result.stops = true

theorem Observed.halted (observed : run.Observed) (tracked : run.Tracked settings) : run.Halted := by
  rcases observed with stopped | cancelled | ⟨index, result, found, stops⟩
  · exact Or.inl stopped
  · exact Or.inr (Or.inl cancelled)
  · unfold Tracked at tracked
    unfold Halted
    cases place : run.place <;> simp only [place] at tracked ⊢
    case starting | startHook | top | waiting =>
      exact Or.inl (tracked.judged index result found stops)
    case admitHook | draining | finishHook =>
      exact Or.inl (tracked.1.judged index result found stops)
    case closing | returned => exact Or.inr (Or.inr trivial)

theorem finish_halted : run.finish.Halted := Or.inr (Or.inr trivial)

theorem await_halted (stopped : run.stopped.isSome) (later : ℚ) :
    (run.await settings later).Halted ∧ (run.await settings later).handed = run.handed := by
  rcases run.await_cases settings later with ⟨-, same⟩ | ⟨-, same⟩ | ⟨-, same⟩
  · rw [same]
    exact ⟨finish_halted, rfl⟩
  · rw [same]
    exact ⟨finish_halted, rfl⟩
  · rw [same]
    exact ⟨Or.inl stopped, rfl⟩

/-- Once something has stopped the run, a step hands out no plan. -/
theorem halted_step {action : RunAction plans} {next : Run plans} (tracked : run.Tracked settings)
    (halted : run.Halted) (stepped : run.step settings action = some next) :
    next.Halted ∧ next.handed = run.handed := by
  have moves := step_moves stepped
  unfold Halted at halted
  cases moves with
  | cancel | interrupt | interruptClose => exact ⟨Or.inr (Or.inl rfl), rfl⟩
  | complete live handed open_ => exact ⟨halted, rfl⟩
  | start place =>
    simp only [place, or_false] at halted
    unfold startNext
    split
    · exact ⟨halted.imp id Or.inl, rfl⟩
    · split_ifs with cancelled
      · exact ⟨Or.inl rfl, rfl⟩
      · split
        · exact ⟨halted.imp id Or.inl, rfl⟩
        · split_ifs <;> exact ⟨halted.imp id Or.inl, rfl⟩
  | started place =>
    rename_i rest outcome later
    simp only [place, or_false] at halted
    cases outcome with
    | returned closure => exact ⟨halted.imp id Or.inl, rfl⟩
    | raised | cancelled => exact ⟨finish_halted, rfl⟩
  | iterate place =>
    simp only [place, or_false] at halted
    rename_i now later
    obtain ⟨stopped, deadline, same, kept, -⟩ := run.observe_shape settings now
    obtain ⟨reason, known⟩ := Option.isSome_iff_exists.mp (kept halted)
    unfold iterate
    split_ifs with exhausted
    · exact ⟨finish_halted, rfl⟩
    · simp only [same, known]
      exact await_halted rfl later
  | admitted place =>
    rename_i group outcome later
    simp only [Tracked, place] at tracked
    simp only [place, or_false] at halted
    obtain ⟨-, running, -⟩ := tracked
    cases outcome with
    | returned closure =>
      have cancelled : run.token.cancelled = true := by
        rcases halted with stopped | cancelled
        · rw [running] at stopped
          cases stopped
        · exact cancelled
      simp only [afterAdmit, cancelled, if_true]
      exact await_halted rfl later
    | raised text => exact await_halted rfl later
    | cancelled => exact ⟨finish_halted, rfl⟩
  | wake place distinct finished | again place =>
    simp only [place, or_false] at halted
    exact ⟨halted.imp id Or.inl, rfl⟩
  | process place found =>
    rename_i index rest now later outcome
    simp only [place, or_false] at halted
    obtain ⟨token, stopped, same, kept, cancelled, -⟩ := process_shape settings run index rest
      (execute (planAt plans index) outcome)
    rw [same]
    exact ⟨halted.imp kept fun now => Or.inl (cancelled now), rfl⟩
  | finished place =>
    rename_i index rest outcome later
    simp only [place, or_false] at halted
    obtain ⟨token, stopped, safe, same, kept, cancelled, -⟩ := afterFinish_shape run index rest outcome
    rw [same]
    exact ⟨halted.imp kept fun now => Or.inl (cancelled now), rfl⟩
  | settle place => exact ⟨Or.inr (Or.inr trivial), rfl⟩
  | closed place =>
    rename_i backend rest outcome
    cases outcome <;> exact ⟨Or.inr (Or.inr trivial), rfl⟩

end Run

/-! ### Runs -/

theorem tracked_run {settings : Settings} {plans : List EpisodePlan} {run : Run plans}
    (reached : (runSystem settings plans).Reachable always run) : run.Tracked settings := by
  refine reached.invariant (Run.Tracked settings) ?_ ?_
  · rintro start ⟨-, token, rfl⟩
    exact fresh_tracked token
  · intro before action after _ stepped tracked
    exact tracked_step tracked stepped

/-- A run that returns gives exactly one result for each plan, in the order of the plans: the result
its backend returned for this very plan, the unresolved result of a plan that was handed out, or the
refusal of a plan that never was. And once a reason to stop has been observed, no further plan is
handed to a backend. -/
theorem run_results (settings : Settings) (plans : List EpisodePlan) (run : Run plans)
    (reached : (runSystem settings plans).Reachable always run) :
    (∀ ordered, run.place = .returned ordered →
      ∃ list, ordered = some list ∧ list.length = plans.length ∧ ∀ index : Fin plans.length,
          ∃ result, list[index.val]? = some result ∧ run.Source index result) ∧
      (run.Observed → ∀ next, (runSystem settings plans).Leads always run next →
        next.handed = run.handed) := by
  have tracked := tracked_run reached
  constructor
  · intro ordered place
    simp only [Run.Tracked, place] at tracked
    exact tracked
  · intro observed next path
    have kept : next.Tracked settings ∧ next.Halted ∧ next.handed = run.handed := by
      refine path.preserves
        (fun state => state.Tracked settings ∧ state.Halted ∧ state.handed = run.handed) ?_ ?_
      · rintro before action after - stepped ⟨known, halted, same⟩
        obtain ⟨still, handed⟩ := halted_step known halted stepped
        exact ⟨tracked_step known stepped, still, handed.trans same⟩
      · exact ⟨tracked, observed.halted tracked, rfl⟩
    exact kept.2.2

/-! ### A run of two plans -/

def oneWorker : Settings where
  backends benchmark := if benchmark = .kernelbench then some ⟨0, false⟩ else none
  maxWorkers := 1
  maxGroups := 1
  capacities executor := if executor = "local" then some oneCpu else none
  drainTimeout := 1
  policy := .nativeGroups
  maxWorkers_pos := le_rfl
  maxGroups_pos := le_rfl
  drainTimeout_pos := by decide
  waves := nofun

def pair : List EpisodePlan := [kernelPlan 0, kernelPlan 1]

theorem pair_valid : validate oneWorker pair = .ok () := by rfl

theorem pair_pos : 0 < pair.length := Nat.two_pos

/-- The cleanup of the first sample is not proven, so the second is never handed out. -/
def unsafeRun : List (RunAction pair) :=
  [.proceed 0 0, .hook (.returned none) 0, .proceed 0 0, .proceed 0 0,
    .complete ⟨0, pair_pos⟩ (.returned (completed (kernelPlan 0) "unknown")),
    .wake [⟨0, pair_pos⟩], .proceed 0 0, .proceed 0 0, .proceed 0 0, .closed .closed, .proceed 0 0]

def Run.hasReturned {plans : List EpisodePlan} (run : Run plans) : Bool :=
  match run.place with
  | .returned _ => true
  | _ => false

theorem Run.hasReturned_iff {plans : List EpisodePlan} {run : Run plans} :
    run.hasReturned = true ↔ ∃ ordered, run.place = .returned ordered := by
  unfold hasReturned
  cases run.place <;> simp

theorem run_results_unsafe : ∃ run, (runSystem oneWorker pair).Reachable always run ∧
    run.handed = [⟨0, by decide⟩] ∧ ∃ list, run.place = .returned (some list) ∧ list.length = 2 ∧
      ∀ index : Fin pair.length, ∃ result, list[index.val]? = some result ∧ run.Source index result := by
  have executed : ((runSystem oneWorker pair).run always (fresh pair .fresh)
      unsafeRun).map (fun run => (run.handed, run.hasReturned)) = some ([⟨0, by decide⟩], true) := by
    decide +kernel
  obtain ⟨run, finish, same⟩ := Option.map_eq_some_iff.mp executed
  obtain ⟨handed, returned⟩ := Prod.mk.injEq .. ▸ same
  have reached : (runSystem oneWorker pair).Reachable always run :=
    reachable_of_run ⟨pair_valid, _, rfl⟩ finish
  obtain ⟨ordered, place⟩ := hasReturned_iff.mp returned
  obtain ⟨list, rfl, length, sources⟩ := (run_results oneWorker pair run reached).1 ordered place
  exact ⟨run, reached, handed, list, place, length, sources⟩

end TinyDSV41.Coordinator
