/-
**The resources of `Coordinator.run` balance.**

The charges that are open belong to the active plans (native groups) or to the waves held open
(terminal waves); everything else was released once or quarantined once. Two facts about groups carry
this: a group is held as long as one of its plans is active or still pending, and its counter is the
number of its finished plans.

* `accounted_step` — every step keeps the ledger balanced over the open charges of its place.
* `run_resources` — limits hold at every step, and what is reserved when a run returns is what it
  quarantined.
-/

import TinyDSV41.Coordinator.RunResults

namespace TinyDSV41.Coordinator

open List Lib Ledger Ledger.Balanced System Option Ledger.Within Run

/-! ### Validation -/

/-- What validation promises about resources. -/
structure Valid (settings : Settings) (plans : List EpisodePlan) : Prop where
  resources : ∀ index, settings.validResources (planAt plans index).task.resources = true
  waves : settings.policy = .terminalWaves → ∀ index,
    (indicesOf plans (planAt plans index).group).length ≤ settings.maxWorkers ∧
      settings.waveFits (fun _ => 0)
        ((indicesOf plans (planAt plans index).group).map (planAt plans)) = true

theorem planAt_mem (plans : List EpisodePlan) (index : Fin plans.length) :
    planAt plans index ∈ plans := get_mem plans index

variable {plans : List EpisodePlan}

theorem mem_indicesOf {index : Fin plans.length} :
    index ∈ indicesOf plans group ↔ (planAt plans index).group = group := by
  simp [indicesOf]

theorem indicesOf_nodup (plans : List EpisodePlan) (group : GroupKey) :
    (indicesOf plans group).Nodup := (nodup_finRange _).filter _

theorem checkPlan_fold {detail : String → String}
    {owners final : List (String × Backend)}
    (checked : plans.foldlM (checkPlan settings detail) owners = .ok final) :
    ∀ plan ∈ plans, settings.validResources plan.task.resources = true := by
  induction plans generalizing owners with
  | nil => simp
  | cons plan rest ih =>
    rw [foldlM_cons] at checked
    cases head : checkPlan settings detail owners plan with
    | error message =>
      rw [head] at checked
      cases checked
    | ok next =>
      rw [head] at checked
      have others := ih checked
      have here := checkPlan_valid head
      intro other mem
      rcases mem_cons.mp mem with rfl | later
      · exact here
      · exact others other later

theorem validate_valid
    (accepted : validate settings plans = .ok ()) : Valid settings plans := by
  unfold validate at accepted
  split_ifs at accepted with _ _ refused
  · split at accepted <;> cases accepted
  · split at accepted
    · cases accepted
    · rename_i final checked
      refine ⟨fun index => checkPlan_fold checked _ (planAt_mem plans index), ?_⟩
      intro waves index
      have fine : ¬ (settings.maxWorkers < (indicesOf plans (planAt plans index).group).length ∨
          settings.waveFits (fun _ => 0)
            ((indicesOf plans (planAt plans index).group).map (planAt plans)) = false) :=
        fun bad => refused ⟨waves, planAt plans index, planAt_mem plans index, bad⟩
      rw [not_or, not_lt, Bool.not_eq_false] at fine
      exact fine

/-! ### Groups -/

theorem countP_succ {α : Type} [DecidableEq α] {list : List α} (distinct : list.Nodup)
    {first second : α → Bool} {item : α} (mem : item ∈ list) (before : first item = false)
    (now : second item = true) (same : ∀ other, other ≠ item → second other = first other) :
    list.countP second = list.countP first + 1 := by
  have split := perm_cons_erase mem
  rw [split.countP_eq, split.countP_eq, countP_cons_of_pos now, countP_cons_of_neg (by simp [before])]
  congr 1
  refine countP_congr ?_
  intro other inside
  rw [same other (fun here => (distinct.not_mem_erase) (here ▸ inside))]

/-- The counters and the groups held open. `closing` is a group whose plans have all ended and whose
wave is being closed. -/
structure Grouped (plans : List EpisodePlan) (pending active handed : List (Fin plans.length))
    (completed : GroupKey → ℕ) (held : List GroupKey) (closing : Option GroupKey) : Prop where
  heldNodup : held.Nodup
  counted : ∀ group, completed group = (indicesOf plans group).countP (ended handed active)
  isHeld : ∀ group, group ∈ held ↔ (∃ index ∈ handed, (planAt plans index).group = group) ∧
      ((∃ index, (planAt plans index).group = group ∧ (index ∈ pending ∨ index ∈ active)) ∨
        closing = some group)

namespace Grouped

variable {plans : List EpisodePlan} {pending active handed : List (Fin plans.length)}
  {completed : GroupKey → ℕ} {held : List GroupKey} {closing : Option GroupKey}

theorem held_of_active (grouped : Grouped plans pending active handed completed held closing)
    {index : Fin plans.length} (mem : index ∈ active) (given : index ∈ handed) :
    (planAt plans index).group ∈ held :=
  (grouped.isHeld _).mpr ⟨⟨index, given, rfl⟩, Or.inl ⟨index, rfl, Or.inr mem⟩⟩

section

variable (grouped : Grouped plans pending active handed completed held none)
include grouped

theorem admitPlan {indices : List (Fin plans.length)} (some_ : indices ≠ [])
    (same : ∀ index ∈ indices, (planAt plans index).group = group)
    (fresh : ∀ index ∈ indices, index ∉ handed) (distinct : pending.Nodup) :
    Grouped plans (pending.diff indices) (active ++ indices) (handed ++ indices) completed
      (held.insert group) none where
  heldNodup := grouped.heldNodup.insert
  counted other := by
    rw [grouped.counted]
    refine countP_congr ?_
    intro index _
    unfold ended
    simp only [mem_append, decide_eq_true_eq, not_or]
    tauto
  isHeld other := by
    rw [mem_insert_iff, grouped.isHeld]
    constructor
    · rintro (rfl | ⟨⟨index, given, rfl⟩, open_⟩)
      · obtain ⟨index, mem⟩ := exists_mem_of_ne_nil _ some_
        exact ⟨⟨index, mem_append_right _ mem, same index mem⟩,
          Or.inl ⟨index, same index mem, Or.inr (mem_append_right _ mem)⟩⟩
      · refine ⟨⟨index, mem_append_left _ given, rfl⟩, ?_⟩
        rcases open_ with ⟨sibling, sameGroup, waiting | running⟩ | wrong
        · refine Or.inl ⟨sibling, sameGroup, ?_⟩
          by_cases chosen : sibling ∈ indices
          · exact Or.inr (mem_append_right _ chosen)
          · exact Or.inl (distinct.mem_sdiff_iff.mpr ⟨waiting, chosen⟩)
        · exact Or.inl ⟨sibling, sameGroup, Or.inr (mem_append_left _ running)⟩
        · cases wrong
    · rintro ⟨⟨index, given, rfl⟩, open_⟩
      rcases mem_append.mp given with old | new
      · rcases open_ with ⟨sibling, sameGroup, waiting | running⟩ | wrong
        · exact Or.inr ⟨⟨index, old, rfl⟩, Or.inl ⟨sibling, sameGroup, Or.inl (diff_subset _ _ waiting)⟩⟩
        · rcases mem_append.mp running with before | chosen
          · exact Or.inr ⟨⟨index, old, rfl⟩, Or.inl ⟨sibling, sameGroup, Or.inr before⟩⟩
          · exact Or.inl (sameGroup.symm.trans (same sibling chosen))
        · cases wrong
      · exact Or.inl (same index new)

theorem count {index : Fin plans.length} (mem : index ∈ active) (given : index ∈ handed)
    (distinct : active.Nodup) (group : GroupKey) :
    Function.update completed (planAt plans index).group (completed (planAt plans index).group + 1) group
      = (indicesOf plans group).countP (ended handed (active.erase index)) := by
  have others : ∀ other, other ≠ index →
      ended handed (active.erase index) other = ended handed active other := by
    intro other different
    simp only [ended, mem_erase_of_ne different]
  by_cases same : group = (planAt plans index).group
  · subst same
    rw [Function.update_self, grouped.counted]
    refine (countP_succ (indicesOf_nodup plans _) (mem_indicesOf.mpr rfl) ?_ ?_ others).symm
    · simp [ended, mem]
    · simp [ended, given, distinct.not_mem_erase]
  · rw [Function.update_of_ne same, grouped.counted]
    refine countP_congr ?_
    intro other inside
    rw [others other]
    rintro rfl
    exact same (mem_indicesOf.mp inside).symm

end

theorem full (complete : (indicesOf plans group).countP (ended handed active) = expected plans group)
    {index : Fin plans.length} (same : (planAt plans index).group = group) :
    index ∈ handed ∧ index ∉ active := by
  have all := countP_eq_length.mp complete index (mem_indicesOf.mpr same)
  simpa [ended] using all

theorem notFull
    (incomplete : (indicesOf plans group).countP (ended handed active) ≠ expected plans group) :
    ∃ index, (planAt plans index).group = group ∧ (index ∉ handed ∨ index ∈ active) := by
  by_contra none_
  push Not at none_
  refine incomplete (countP_eq_length.mpr ?_)
  intro index mem
  have := none_ index (mem_indicesOf.mp mem)
  simpa [ended] using this

end Grouped

/-! ### Charges -/

/-- The plans whose charges are open: the active ones, or all of the waves held open. -/
def outstanding (settings : Settings) (plans : List EpisodePlan) (active : List (Fin plans.length))
    (held : List GroupKey) : List (Fin plans.length) :=
  match settings.policy with
  | .nativeGroups => active
  | .terminalWaves => held.flatMap (indicesOf plans)

/-- The ledger and the limits inside the loop. -/
structure Accounts (settings : Settings) (plans : List EpisodePlan)
    (active handed : List (Fin plans.length)) (held : List GroupKey)
    (ledger : Ledger (Fin plans.length) Account ℚ) (stopped : Option String) : Prop where
  balanced : Ledger.Balanced (demandOf plans) ledger (outstanding settings plans active held)
  within : Ledger.Within settings.limit ledger
  history : ledger.charged = handed
  clean : stopped = none → ledger.lost = []
  workers : active.length ≤ settings.maxWorkers
  groups : held.length ≤ settings.maxGroups

theorem demandOf_nonneg (plans : List EpisodePlan) (index : Fin plans.length) (account : Account) :
    0 ≤ demandOf plans index account := (planAt plans index).task.resources.demand_nonneg account

theorem total_eq_totals (indices : List (Fin plans.length))
    (account : Account) :
    Ledger.total (demandOf plans) indices account = totals (indices.map (planAt plans)) account := by
  simp [Ledger.total, totals, demandOf, Function.comp_def]

namespace Accounts

variable {settings : Settings} {plans : List EpisodePlan} {active handed : List (Fin plans.length)}
  {held : List GroupKey} {ledger : Ledger (Fin plans.length) Account ℚ} {stopped : Option String}
variable {later : Option String}

section

variable (accounts : Accounts settings plans active handed held ledger stopped)
include accounts

theorem stop (kept : stopped.isSome → later.isSome) :
    Accounts settings plans active handed held ledger later where
  balanced := accounts.balanced
  within := accounts.within
  history := accounts.history
  clean running := by
    refine accounts.clean ?_
    rw [← not_isSome_iff_eq_none] at running ⊢
    exact fun before => running (kept before)
  workers := accounts.workers
  groups := accounts.groups

theorem admitOne (native : settings.policy = .nativeGroups) {index : Fin plans.length}
    (fresh : index ∉ handed)
    (fits : settings.fits ledger.reserved (planAt plans index).task.resources = true)
    (free : active.length < settings.maxWorkers)
    (room : (planAt plans index).group ∈ held ∨ held.length < settings.maxGroups) :
    Accounts settings plans (active ++ [index]) (handed ++ [index])
      (held.insert (planAt plans index).group) (ledger.charge (demandOf plans) index) stopped where
  balanced := by
    have charged := accounts.balanced.charge (accounts.history ▸ fresh)
    simp only [outstanding, native] at charged ⊢
    exact charged.perm (perm_append_singleton index active).symm
  within := charge fun _ _ limited => fits_within fits accounts.within limited
  history := by
    show ledger.charged ++ [index] = handed ++ [index]
    rw [accounts.history]
  clean := accounts.clean
  workers := by
    rw [length_append]
    exact free
  groups := by
    by_cases inside : (planAt plans index).group ∈ held
    · rw [insert_of_mem inside]
      exact accounts.groups
    · rw [length_insert_of_not_mem inside]
      exact room.resolve_left inside

end

/-- A wave is admitted when no other is held. -/
theorem admitWave (accounts : Accounts settings plans [] handed [] ledger none)
    (valid : Valid settings plans) (waves : settings.policy = .terminalWaves)
    {index : Fin plans.length}
    (fresh : ∀ other ∈ indicesOf plans (planAt plans index).group, other ∉ handed) :
    Accounts settings plans ([] ++ indicesOf plans (planAt plans index).group)
      (handed ++ indicesOf plans (planAt plans index).group)
      (([] : List GroupKey).insert (planAt plans index).group)
      ((indicesOf plans (planAt plans index).group).foldl (charge (demandOf plans)) ledger)
      none := by
  obtain ⟨few, fits⟩ := valid.waves waves index
  have lost := accounts.clean rfl
  have empty : ∀ account, ledger.reserved account = 0 := by
    intro account
    rw [accounts.balanced.reserved account, lost]
    simp [outstanding, waves]
  obtain ⟨charged, kept⟩ := history_chargeAll (indicesOf plans (planAt plans index).group) ledger
  refine ⟨?_, ?_, ?_, ?_, ?_, ?_⟩
  · have all := accounts.balanced.chargeAll (indicesOf_nodup plans (planAt plans index).group)
      fun other mem => accounts.history ▸ fresh other mem
    simpa [outstanding, waves] using all
  · refine chargeAll ?_
    intro account bound limited
    have room := waveFits_within fits (fun spot limit here => ?_) limited
    · rw [empty, total_eq_totals]
      exact room
    · obtain ⟨capacity, -, rfl⟩ := limit_eq here
      exact capacity.amount_nonneg spot.2
  · rw [charged, accounts.history]
  · intro _
    rw [kept, lost]
  · simpa using few
  · exact settings.maxGroups_pos

section

variable (accounts : Accounts settings plans active handed held ledger stopped)
include accounts

/-- A finished task of native groups settles its own charge. -/
theorem process {index : Fin plans.length} (mem : index ∈ active) {result : EpisodeResult}
    (kept : stopped.isSome → later.isSome) (raised : result.stops = true → later.isSome)
    {after : List GroupKey} (fewer : after.length ≤ held.length)
    (same : settings.policy = .terminalWaves → after = held) :
    Accounts settings plans (active.erase index) handed after
      (ledgerAfter settings plans ledger index result.safe) later := by
  have shorter : (active.erase index).length ≤ settings.maxWorkers :=
    length_erase_le.trans accounts.workers
  have running : later = none → stopped = none := by
    intro none_
    rw [← not_isSome_iff_eq_none] at none_ ⊢
    exact fun before => none_ (kept before)
  cases policy : settings.policy with
  | terminalWaves =>
    have unchanged : ledgerAfter settings plans ledger index result.safe = ledger := by
      simp [ledgerAfter, policy]
    rw [unchanged, same policy]
    refine ⟨?_, accounts.within, accounts.history, fun none_ => accounts.clean (running none_),
      shorter, accounts.groups⟩
    have balanced := accounts.balanced
    simp only [outstanding, policy] at balanced ⊢
    exact balanced
  | nativeGroups =>
    have balanced := accounts.balanced
    simp only [outstanding, policy] at balanced
    have split := balanced.perm (perm_cons_erase mem)
    cases safe : result.safe with
    | true =>
      have released : ledgerAfter settings plans ledger index true
          = ledger.release (demandOf plans) index := by
        simp [ledgerAfter, policy]
      rw [released]
      refine ⟨?_, accounts.within.release (demandOf_nonneg plans index), accounts.history,
        fun none_ => accounts.clean (running none_), shorter, fewer.trans accounts.groups⟩
      simp only [outstanding, policy]
      exact split.release
    | false =>
      have lost : ledgerAfter settings plans ledger index false
          = ledger.quarantine (demandOf plans) index := by
        simp [ledgerAfter, policy]
      rw [lost]
      refine ⟨?_, accounts.within.quarantine index, accounts.history, ?_, shorter,
        fewer.trans accounts.groups⟩
      · simp only [outstanding, policy]
        exact split.quarantine
      · intro none_
        have halted := raised (by simp [EpisodeResult.stops, safe])
        rw [none_] at halted
        cases halted

/-- A closed wave settles the charges of all its plans. -/
theorem afterFinish (waves : settings.policy = .terminalWaves) (open_ : group ∈ held)
    (kept : stopped.isSome → later.isSome) {safe : Bool} (raised : safe = false → later.isSome) :
    Accounts settings plans active handed (held.erase group)
      (if safe then (indicesOf plans group).foldl (release (demandOf plans)) ledger
        else (indicesOf plans group).foldl (quarantine (demandOf plans)) ledger) later := by
  have balanced := accounts.balanced
  simp only [outstanding, waves] at balanced
  have split := balanced.perm ((perm_cons_erase open_).flatMap_right (indicesOf plans))
  have fewer : (held.erase group).length ≤ settings.maxGroups :=
    length_erase_le.trans accounts.groups
  cases safe with
  | true =>
    obtain ⟨charged, lost⟩ := history_releaseAll (indicesOf plans group) ledger
    refine ⟨?_, ?_, ?_, ?_, accounts.workers, fewer⟩
    · simp only [outstanding, waves]
      exact split.releaseAll
    · exact accounts.within.releaseAll (demandOf_nonneg plans)
    · exact charged.trans accounts.history
    · intro none_
      refine lost.trans (accounts.clean ?_)
      rw [← not_isSome_iff_eq_none] at none_ ⊢
      exact fun before => none_ (kept before)
  | false =>
    refine ⟨?_, ?_, ?_, ?_, accounts.workers, fewer⟩
    · simp only [outstanding, waves]
      exact split.quarantineAll
    · exact accounts.within.quarantineAll _
    · exact (history_quarantineAll _ _).trans accounts.history
    · intro none_
      have halted := raised rfl
      rw [none_] at halted
      cases halted

theorem expire : Ledger.Balanced (demandOf plans)
        ((if settings.policy = .nativeGroups then active else held.flatMap (indicesOf plans)).foldl
          (quarantine (demandOf plans)) ledger) [] ∧
      Ledger.Within settings.limit
        ((if settings.policy = .nativeGroups then active else held.flatMap (indicesOf plans)).foldl
          (quarantine (demandOf plans)) ledger) ∧
      ((if settings.policy = .nativeGroups then active else held.flatMap (indicesOf plans)).foldl
          (quarantine (demandOf plans)) ledger).charged = handed := by
  refine ⟨?_, accounts.within.quarantineAll _, (history_quarantineAll _ _).trans accounts.history⟩
  have balanced := accounts.balanced
  cases policy : settings.policy with simp only [outstanding, policy] at balanced
  | nativeGroups | terminalWaves =>
    exact quarantineAll (by simpa using balanced)

end

end Accounts

/-! ### Steps -/

namespace Run

variable {settings : Settings} {plans : List EpisodePlan} {run : Run plans}

/-- Groups and charges inside the loop. -/
def Books (settings : Settings) (run : Run plans) (closing : Option GroupKey) : Prop :=
  Grouped plans run.pending run.active run.handed run.completed run.held closing ∧
    Accounts settings plans run.active run.handed run.held run.ledger run.stopped

def Closed (settings : Settings) (run : Run plans) : Prop :=
  Ledger.Balanced (demandOf plans) run.ledger [] ∧ Ledger.Within settings.limit run.ledger ∧
    run.active = [] ∧ run.held.length ≤ settings.maxGroups ∧ run.ledger.charged = run.handed

def Accounted (settings : Settings) (run : Run plans) : Prop :=
  match run.place with
  | .starting _ | .startHook _ => run.Books settings none ∧ run.handed = []
  | .top | .waiting | .draining _ => run.Books settings none
  | .admitHook _ => run.Books settings none ∧ run.held = []
  | .finishHook index _ => run.Books settings (some (planAt plans index).group) ∧
      settings.policy = .terminalWaves ∧
      ∀ other, (planAt plans other).group = (planAt plans index).group →
        other ∈ run.handed ∧ other ∉ run.active
  | .closing _ | .returned _ => run.Closed settings

section

variable (loops : run.Loops settings) (books : run.Books settings none)
include loops books

theorem held_idle (waves : settings.policy = .terminalWaves) (idle : run.active = []) : run.held = [] := by
  refine eq_nil_iff_forall_not_mem.mpr ?_
  intro group mem
  obtain ⟨⟨index, given, rfl⟩, open_⟩ := (books.1.isHeld group).mp mem
  rcases open_ with ⟨sibling, same, waiting | running⟩ | wrong
  · -- A wave is pending as a whole, so a handed plan has no pending sibling.
    have pending := loops.whole waves sibling index same waiting
    exact (loops.tracks.split index).mp pending given
  · rw [idle] at running
    cases running
  · cases wrong

theorem outstanding_idle (idle : run.active = []) :
    outstanding settings plans run.active run.held = [] := by
  unfold outstanding
  cases policy : settings.policy with
  | nativeGroups => exact idle
  | terminalWaves => simp [held_idle loops books policy idle]

theorem finish_accounted (idle : run.active = []) : run.finish.Accounted settings := by
  have balanced := books.2.balanced
  rw [outstanding_idle loops books idle] at balanced
  have ledger : run.finish.ledger = run.ledger := by
    unfold finish
    simp only [idle, foldl_nil]
  refine ⟨?_, ?_, idle, books.2.groups, ?_⟩
  · rw [ledger]
    exact balanced
  · rw [ledger]
    exact books.2.within
  · rw [ledger]
    exact books.2.history

theorem await_accounted (later : ℚ) : (run.await settings later).Accounted settings := by
  rcases run.await_cases settings later with ⟨idle, same⟩ | ⟨-, same⟩ | ⟨-, same⟩
  · rw [same]
    exact finish_accounted loops books idle
  · rw [same]
    obtain ⟨balanced, within, history⟩ := books.2.expire
    exact ⟨balanced, within, rfl, books.2.groups, history⟩
  · rw [same]
    exact books

theorem iterate_accounted (now later : ℚ) : (run.iterate settings now later).Accounted settings := by
  unfold iterate
  split_ifs with exhausted
  · exact finish_accounted loops books exhausted.2
  · obtain ⟨stopped, deadline, same, kept, -, limited⟩ := run.observe_shape settings now
    have observed : (run.observe settings now).Loops settings ∧
        (run.observe settings now).Books settings none := by
      rw [same]
      exact ⟨loops.stop (fun before => kept (Or.inl before)) (limited loops.deadline), books.1,
        books.2.stop fun before => kept (Or.inl before)⟩
    simp only
    split
    case h_1 policy =>
      have admitted : ((run.observe settings now).admitNative settings
          (run.observe settings now).pending []).Loops settings ∧
          ((run.observe settings now).admitNative settings
            (run.observe settings now).pending []).Books settings none := by
        refine admitNative_induction
          (fun current => current.Loops settings ∧ current.Books settings none) ?_
          observed.1.tracks.pendingNodup (fun _ mem => mem) observed
        rintro current index ⟨known, grouped, accounts⟩ present free room fits
        have fresh := (known.tracks.split index).mp present
        refine ⟨Looping.admitOne known policy present, ?_, accounts.admitOne policy fresh fits free room⟩
        have joined := grouped.admitPlan (cons_ne_nil index [])
          (fun other mem => congrArg (fun i => (planAt plans i).group) (mem_singleton.mp mem))
          (fun other mem => by rw [mem_singleton.mp mem]; exact fresh)
          known.tracks.pendingNodup
        simpa [diff_cons, admitPlan, hold] using joined
      exact await_accounted admitted.1 admitted.2 later
    case h_2 none_ waves pending =>
      split_ifs with idle
      · exact ⟨observed.2, idle⟩
      · exact await_accounted observed.1 observed.2 later
    case h_3 => exact await_accounted observed.1 observed.2 later

end

theorem afterAdmit_accounted (valid : Valid settings plans) (loops : run.Loops settings)
    (books : run.Books settings none) (free : run.held = []) (running : run.stopped = none)
    (waves : settings.policy = .terminalWaves)
    (present : index ∈ run.pending) (same : (planAt plans index).group = group) (later : ℚ)
    (outcome : HookOutcome) :
    (run.afterAdmit settings group later outcome).Accounted settings := by
  -- With no group held nothing is active.
  have idle : run.active = [] := by
    refine eq_nil_iff_forall_not_mem.mpr ?_
    intro other mem
    have inside := books.1.held_of_active mem (loops.tracks.handedOfActive other mem)
    rw [free] at inside
    cases inside
  cases outcome with
  | returned closure =>
    simp only [afterAdmit]
    split_ifs with cancelled
    · exact await_accounted (halt loops _) ⟨books.1, books.2.stop fun _ => rfl⟩ later
    · subst same
      have fresh : ∀ other ∈ indicesOf plans (planAt plans index).group, other ∉ run.handed := by
        intro other mem
        refine (loops.tracks.split other).mp ?_
        exact loops.whole waves index other (mem_indicesOf.mp mem).symm present
      have accounts := books.2
      rw [idle, free, running] at accounts
      have settled := accounts.admitWave valid waves fresh
      refine await_accounted ?_ ⟨?_, ?_⟩ later
      all_goals unfold admitWave
      all_goals rw [foldl_admitPlan]
      · exact loops.admitWave waves present
      · exact books.1.admitPlan (ne_nil_of_mem (mem_indicesOf.mpr rfl))
          (fun other => mem_indicesOf.mp) fresh loops.tracks.pendingNodup
      · simpa [hold, idle, free, running] using settled
  | raised text =>
    exact await_accounted (halt loops _) ⟨books.1, books.2.stop fun _ => rfl⟩ later
  | cancelled =>
    exact finish_accounted (halt loops _) ⟨books.1, books.2.stop fun _ => rfl⟩ idle

variable {rest : List (Fin plans.length)}

theorem process_accounted (loops : run.Loops settings)
    (books : run.Books settings none) (mem : index ∈ run.active) (result : EpisodeResult) :
    (run.process settings index rest result).Accounted settings := by
  obtain ⟨token, stopped, same, kept, -, raised, -⟩ := process_shape settings run index rest result
  have given := loops.tracks.handedOfActive index mem
  have count := books.1.count mem given loops.tracks.activeNodup
  have counter := count (planAt plans index).group
  rw [Function.update_self] at counter
  rw [same]
  by_cases last : run.completed (planAt plans index).group + 1 = expected plans (planAt plans index).group
  · have all : ∀ other, (planAt plans other).group = (planAt plans index).group →
        other ∈ run.handed ∧ other ∉ run.active.erase index :=
      fun other => Grouped.full (counter.symm.trans last)
    cases policy : settings.policy with
    | terminalWaves =>
      rw [if_pos ⟨last, rfl⟩, if_neg (fun both => Policy.noConfusion both.2)]
      refine ⟨⟨⟨books.1.heldNodup, count, ?_⟩, ?_⟩, policy, all⟩
      · intro group
        rw [books.1.isHeld]
        constructor
        · rintro ⟨found, open_⟩
          refine ⟨found, ?_⟩
          by_cases here : group = (planAt plans index).group
          · exact Or.inr (congrArg some here.symm)
          · rcases open_ with ⟨sibling, sameGroup, waiting | running⟩ | wrong
            · exact Or.inl ⟨sibling, sameGroup, Or.inl waiting⟩
            · refine Or.inl ⟨sibling, sameGroup, Or.inr ((mem_erase_of_ne ?_).mpr running)⟩
              rintro rfl
              exact here sameGroup.symm
            · cases wrong
        · rintro ⟨found, open_⟩
          refine ⟨found, Or.inl ?_⟩
          rcases open_ with ⟨sibling, sameGroup, waiting | running⟩ | here
          · exact ⟨sibling, sameGroup, Or.inl waiting⟩
          · exact ⟨sibling, sameGroup, Or.inr (mem_of_mem_erase running)⟩
          · cases here
            exact ⟨index, rfl, Or.inr mem⟩
      · exact books.2.process mem kept raised le_rfl fun _ => rfl
    | nativeGroups =>
      rw [if_neg (fun both => Policy.noConfusion both.2), if_pos ⟨last, rfl⟩]
      refine ⟨⟨books.1.heldNodup.erase _, count, ?_⟩, ?_⟩
      · intro group
        rw [books.1.heldNodup.mem_erase_iff, books.1.isHeld]
        constructor
        · rintro ⟨different, found, open_⟩
          refine ⟨found, ?_⟩
          rcases open_ with ⟨sibling, sameGroup, waiting | running⟩ | wrong
          · exact Or.inl ⟨sibling, sameGroup, Or.inl waiting⟩
          · refine Or.inl ⟨sibling, sameGroup, Or.inr ((mem_erase_of_ne ?_).mpr running)⟩
            rintro rfl
            exact different sameGroup.symm
          · cases wrong
        · rintro ⟨found, open_⟩
          rcases open_ with ⟨sibling, sameGroup, waiting | running⟩ | wrong
          · refine ⟨?_, found, Or.inl ⟨sibling, sameGroup, Or.inl waiting⟩⟩
            rintro rfl
            exact (loops.tracks.split sibling).mp waiting (all sibling sameGroup).1
          · refine ⟨?_, found, Or.inl ⟨sibling, sameGroup, Or.inr (mem_of_mem_erase running)⟩⟩
            rintro rfl
            exact (all sibling sameGroup).2 running
          · cases wrong
      · refine books.2.process mem kept raised length_erase_le ?_
        intro waves
        rw [policy] at waves
        cases waves
  · simp only [last, false_and, if_false]
    refine ⟨⟨books.1.heldNodup, count, ?_⟩, ?_⟩
    · obtain ⟨witness, inGroup, alive⟩ := Grouped.notFull (fun full => last (counter.trans full))
      intro group
      rw [books.1.isHeld]
      constructor
      · rintro ⟨found, open_⟩
        refine ⟨found, Or.inl ?_⟩
        by_cases here : group = (planAt plans index).group
        · refine ⟨witness, inGroup.trans here.symm, ?_⟩
          rcases alive with unhanded | running
          · exact Or.inl ((loops.tracks.split witness).mpr unhanded)
          · exact Or.inr running
        · rcases open_ with ⟨sibling, sameGroup, waiting | running⟩ | wrong
          · exact ⟨sibling, sameGroup, Or.inl waiting⟩
          · refine ⟨sibling, sameGroup, Or.inr ((mem_erase_of_ne ?_).mpr running)⟩
            rintro rfl
            exact here sameGroup.symm
          · cases wrong
      · rintro ⟨found, open_⟩
        refine ⟨found, Or.inl ?_⟩
        rcases open_ with ⟨sibling, sameGroup, waiting | running⟩ | wrong
        · exact ⟨sibling, sameGroup, Or.inl waiting⟩
        · exact ⟨sibling, sameGroup, Or.inr (mem_of_mem_erase running)⟩
        · cases wrong
    · exact books.2.process mem kept raised le_rfl fun _ => rfl

theorem afterFinish_accounted (loops : run.Loops settings)
    (books : run.Books settings (some (planAt plans index).group))
    (waves : settings.policy = .terminalWaves)
    (all : ∀ other, (planAt plans other).group = (planAt plans index).group → other ∈ run.handed ∧ other
      ∉ run.active) (outcome : HookOutcome) :
    (run.afterFinish index rest outcome).Accounted settings := by
  obtain ⟨token, stopped, safe, same, kept, -, raised, -⟩ := afterFinish_shape run index rest outcome
  have open_ : (planAt plans index).group ∈ run.held :=
    (books.1.isHeld _).mpr ⟨⟨index, (all index rfl).1, rfl⟩, Or.inr rfl⟩
  rw [same]
  refine ⟨⟨books.1.heldNodup.erase _, books.1.counted, ?_⟩, books.2.afterFinish waves open_ kept raised⟩
  intro group
  rw [books.1.heldNodup.mem_erase_iff, books.1.isHeld]
  constructor
  · rintro ⟨different, found, still⟩
    refine ⟨found, ?_⟩
    rcases still with alive | here
    · exact Or.inl alive
    · exact absurd (some.inj here).symm different
  · rintro ⟨found, still⟩
    rcases still with ⟨sibling, sameGroup, alive⟩ | wrong
    · refine ⟨?_, found, Or.inl ⟨sibling, sameGroup, alive⟩⟩
      rintro rfl
      obtain ⟨given, ended⟩ := all sibling sameGroup
      rcases alive with waiting | running
      · exact (loops.tracks.split sibling).mp waiting given
      · exact ended running
    · cases wrong

theorem books_halt {closing : Option GroupKey} (books : run.Books settings closing)
    (reason : String) : ({ run with stopped := some reason } : Run plans).Books settings closing :=
  ⟨books.1, books.2.stop fun _ => rfl⟩

theorem accounted_step (valid : Valid settings plans) {action : RunAction plans} {next : Run plans}
    (tracked : run.Tracked settings) (accounted : run.Accounted settings)
    (stepped : run.step settings action = some next) : next.Accounted settings := by
  have moves := step_moves stepped
  unfold Tracked at tracked
  unfold Accounted at accounted
  -- Before the first admission nothing is active.
  have unused : run.Loops settings → run.handed = [] → run.active = [] := by
    intro loops none_
    refine eq_nil_iff_forall_not_mem.mpr ?_
    intro index mem
    have given := loops.tracks.handedOfActive index mem
    rw [none_] at given
    cases given
  cases moves with
  | cancel | complete =>
    cases place : run.place <;> simp only [place] at accounted ⊢ <;> exact accounted
  | start place =>
    simp only [place] at tracked accounted
    unfold startNext
    split
    · exact accounted.1
    · split_ifs with cancelled
      · exact books_halt accounted.1 _
      · split
        · exact accounted
        · split_ifs <;> exact accounted
  | started place =>
    rename_i rest outcome later
    simp only [place] at tracked accounted
    obtain ⟨books, none_⟩ := accounted
    cases outcome with
    | returned closure => exact ⟨books, none_⟩
    | raised | cancelled =>
      exact finish_accounted (halt tracked _) (books_halt books _) (unused tracked none_)
  | iterate place =>
    simp only [place] at tracked accounted
    exact iterate_accounted tracked accounted _ _
  | admitted place =>
    simp only [place] at tracked accounted
    obtain ⟨loops, running, waves, index, present, same⟩ := tracked
    exact afterAdmit_accounted valid loops accounted.1 accounted.2 running waves present same _ _
  | wake place distinct finished | interrupt place | again place | settle place =>
    simp only [place] at accounted
    exact accounted
  | process place found =>
    simp only [place] at tracked accounted
    exact process_accounted tracked.1 accounted (tracked.2.2 _ mem_cons_self).1 _
  | finished place =>
    simp only [place] at tracked accounted
    exact afterFinish_accounted tracked.1 accounted.1 accounted.2.1 accounted.2.2 _
  | closed place =>
    rename_i backend rest outcome
    simp only [place] at accounted
    cases outcome <;> exact accounted
  | interruptClose place =>
    simp only [place] at accounted
    simp only [cancelToken, place]
    exact accounted

theorem fresh_accounted (token : CancellationToken) : (fresh plans token).Accounted settings := by
  refine ⟨⟨⟨List.nodup_nil, ?_, ?_⟩, ⟨?_, ?_, rfl, fun _ => rfl, Nat.zero_le _, Nat.zero_le _⟩⟩, rfl⟩
  · intro group
    refine (countP_eq_zero.mpr ?_).symm
    simp [ended, fresh]
  · intro group
    simp [fresh]
  · have none_ : outstanding settings plans [] [] = [] := by
      unfold outstanding
      cases settings.policy <;> rfl
    show Ledger.Balanced _ _ (outstanding settings plans [] [])
    rw [none_]
    exact empty
  · intro account bound limited
    obtain ⟨capacity, -, rfl⟩ := limit_eq limited
    exact capacity.amount_nonneg account.2

end Run

/-! ### Runs -/

theorem accounted_run {run : Run plans}
    (reached : (runSystem settings plans).Reachable always run) :
    Valid settings plans ∧ run.Tracked settings ∧ run.Accounted settings := by
  refine reached.invariant
    (fun state => Valid settings plans ∧ state.Tracked settings ∧ state.Accounted settings) ?_ ?_
  · rintro start ⟨accepted, token, rfl⟩
    exact ⟨validate_valid accepted, fresh_tracked token, fresh_accounted token⟩
  · rintro before action after _ stepped ⟨valid, tracked, accounted⟩
    exact ⟨valid, tracked_step tracked stepped, accounted_step valid tracked accounted stepped⟩

/-- At every step no account exceeds its capacity, at most `maxWorkers` plans are active and at most
`maxGroups` groups are held. Every charge was made once and is open, released once or quarantined
once; when the run has returned none is open, so what is reserved is what is quarantined. -/
theorem run_resources (settings : Settings) (plans : List EpisodePlan) (run : Run plans)
    (reached : (runSystem settings plans).Reachable always run) :
    (∀ account bound, settings.limit account = some bound → run.ledger.reserved account ≤ bound) ∧
      run.active.length ≤ settings.maxWorkers ∧ run.held.length ≤ settings.maxGroups ∧
      run.ledger.charged = run.handed ∧
      (∃ opened, Ledger.Balanced (demandOf plans) run.ledger opened) ∧
      (∀ ordered, run.place = .returned ordered → run.ledger.reserved = run.ledger.quarantined ∧
          run.ledger.charged.Perm (run.ledger.released ++ run.ledger.lost)) := by
  obtain ⟨-, -, accounted⟩ := accounted_run reached
  unfold Run.Accounted at accounted
  -- Inside the loop the open charges are those of the books.
  have inside : ∀ closing, run.Books settings closing →
      (∀ account bound, settings.limit account = some bound → run.ledger.reserved account ≤ bound) ∧
      run.active.length ≤ settings.maxWorkers ∧ run.held.length ≤ settings.maxGroups ∧
      run.ledger.charged = run.handed ∧
      ∃ opened, Ledger.Balanced (demandOf plans) run.ledger opened :=
    fun closing books => ⟨books.2.within, books.2.workers, books.2.groups, books.2.history, _,
      books.2.balanced⟩
  have after : run.Closed settings → (∀ account bound, settings.limit account = some bound →
        run.ledger.reserved account ≤ bound) ∧
      run.active.length ≤ settings.maxWorkers ∧ run.held.length ≤ settings.maxGroups ∧
      run.ledger.charged = run.handed ∧
      ∃ opened, Ledger.Balanced (demandOf plans) run.ledger opened := by
    rintro ⟨balanced, within, idle, groups, history⟩
    exact ⟨within, by simp [idle], groups, history, [], balanced⟩
  cases place : run.place <;> simp only [place] at accounted
  case returned ordered =>
    obtain ⟨limits, workers, groups, history, balanced⟩ := after accounted
    exact ⟨limits, workers, groups, history, balanced, fun _ _ => accounted.1.closed⟩
  case closing => simpa using after accounted
  case starting => simpa using inside _ accounted.1
  case startHook => simpa using inside _ accounted.1
  case admitHook => simpa using inside _ accounted.1
  case finishHook => simpa using inside _ accounted.1
  case top => simpa using inside _ accounted
  case waiting => simpa using inside _ accounted
  case draining => simpa using inside _ accounted

/-- The CPU of the sample whose cleanup is not proven stays reserved and is quarantined. -/
theorem run_resources_unsafe : ∃ run, (runSystem oneWorker pair).Reachable always run ∧
    run.ledger.reserved ("local", .cpu) = 1 ∧ run.ledger.reserved = run.ledger.quarantined ∧
      run.active.length ≤ 1 ∧ run.held.length ≤ 1 ∧ run.ledger.charged = run.handed := by
  have executed : ((runSystem oneWorker pair).run always (fresh pair .fresh)
      unsafeRun).map (fun run => (run.ledger.reserved ("local", .cpu), run.hasReturned))
        = some (1, true) := by
    decide +kernel
  obtain ⟨run, finish, same⟩ := map_eq_some_iff.mp executed
  obtain ⟨reserved, returned⟩ := Prod.mk.injEq .. ▸ same
  have reached : (runSystem oneWorker pair).Reachable always run :=
    reachable_of_run ⟨pair_valid, _, rfl⟩ finish
  obtain ⟨ordered, place⟩ := hasReturned_iff.mp returned
  obtain ⟨-, workers, groups, history, -, closed⟩ := run_resources oneWorker pair run reached
  exact ⟨run, reached, reserved, (closed ordered place).1, workers, groups, history⟩

end TinyDSV41.Coordinator
