/-
**Any number of workers share a `GroupSchedule`.**

The schedule is a function of what was handed out and reported: its groups are opened in order, what
was handed out and what is ready make up the opened groups, and an opened group is active with the
count of its open samples, or finished with the results that were reported (`Accounts`).

* `Accounts.refill`, `Accounts.pop`, `Accounts.report` — what opening groups, handing a sample out and
  reporting a result keep.
* `Tracks.step` — what a step of a worker keeps.
* `Tracks.moves` — while a group is unfinished, a worker holds a sample or is given one when it looks.
* `Tracks.work_step` — a step that changes anything uses up a finite amount of work.
* `group_schedule` — the samples handed out, the active groups, the finished groups and the end.
-/

import TinyDSV41.Lib.Cells
import TinyDSV41.Workloads.GroupSchedule
import Mathlib.Data.List.Perm.Subperm

namespace TinyDSV41.Workloads

open List Lib GroupSchedule Phase Cells System
open Prod (fst snd)

variable {Body Result : Type}

/-! ### The samples of one group -/

/-- Whether a sample is marked with a group's name. -/
def ofGroup (name : String) (sample : Sample Body) : Bool := sample.rollout.groupId == name

variable {sample : Sample Body}
variable {name : String}

theorem ofGroup_iff : ofGroup name sample = true ↔ sample.rollout.groupId = name := beq_iff_eq

variable {group : Group Body}

theorem filter_ofGroup {groups : List (Group Body)} (names : (groups.map fst).Nodup)
    (owned : ∀ group ∈ groups, ∀ sample ∈ group.2, sample.rollout.groupId = group.1)
    (mem : group ∈ groups) :
    (groups.flatMap snd).filter (ofGroup group.1) = group.2 := by
  induction groups with
  | nil => cases mem
  | cons first rest known =>
    rw [map_cons, nodup_cons] at names
    obtain ⟨here, later⟩ := forall_mem_cons.mp owned
    rw [flatMap_cons, filter_append]
    rcases mem_cons.mp mem with rfl | mem
    · have mine : group.2.filter (ofGroup group.1) = group.2 :=
        filter_eq_self.mpr fun sample inside => ofGroup_iff.mpr (here sample inside)
      have none_ : (rest.flatMap snd).filter (ofGroup group.1) = [] := by
        rw [filter_eq_nil_iff]
        intro sample inside marked
        obtain ⟨other, there, inside⟩ := mem_flatMap.mp inside
        refine names.1 (mem_map.mpr ⟨other, there, ?_⟩)
        exact (later other there sample inside).symm.trans (ofGroup_iff.mp marked)
      rw [mine, none_, append_nil]
    · have none_ : first.2.filter (ofGroup group.1) = [] := by
        rw [filter_eq_nil_iff]
        intro sample inside marked
        refine names.1 (mem_map.mpr ⟨group, mem, ?_⟩)
        exact (ofGroup_iff.mp marked).symm.trans (here sample inside)
      rw [none_, nil_append, known names.2 later mem]

def completions (completed : List (Sample Body × Result)) (name : String) : List (Sample Body × Result) :=
  completed.filter fun entry => ofGroup name entry.1

theorem completions_append {result : Result} :
    completions (completed ++ [(sample, result)]) name
      = if sample.rollout.groupId = name then completions completed name ++ [(sample, result)]
        else completions completed name := by
  by_cases same : sample.rollout.groupId = name
  · have marked : ofGroup name sample = true := ofGroup_iff.mpr same
    simp [completions, marked, same]
  · have unmarked : ofGroup name sample = false := beq_false_of_ne same
    simp [completions, unmarked, same]

theorem map_completions :
    (completions completed name).map fst = (completed.map fst).filter (ofGroup name) := by
  rw [filter_map]
  rfl

/-- The record of a group whose samples were reported. -/
def recordOf (name : String) (done : List (Sample Body × Result)) : Option (Finished Result) :=
  done.getLast?.map fun last =>
    { groupId := name, task := last.1.taskId, passIndex := last.1.rollout.passIndex,
      results := done.map snd }

/-- An opened group is active with the number of its open samples, or finished. -/
def Counted (schedule : GroupSchedule Body Result) (done : List (Sample Body × Result))
    (group : Group Body) : Prop :=
  (done.length < group.2.length ∧ schedule.active.get? group.1
      = some { remaining := group.2.length - done.length, results := done.map snd } ∧
    ∀ record ∈ schedule.finished, record.groupId ≠ group.1) ∨
  (done.length = group.2.length ∧ schedule.active.get? group.1 = none ∧
    ∃ record ∈ schedule.finished, recordOf group.1 done = some record ∧
      ∀ other ∈ schedule.finished, other.groupId = group.1 → other = record)

theorem Counted.frame {schedule after : GroupSchedule Body Result} {done : List (Sample Body × Result)}
    {more : List (Finished Result)} (counted : Counted schedule done group)
    (active : after.active.get? group.1 = schedule.active.get? group.1)
    (finished : after.finished = schedule.finished ++ more)
    (others : ∀ record ∈ more, record.groupId ≠ group.1) : Counted after done group := by
  have earlier : ∀ record ∈ after.finished, record.groupId = group.1 → record ∈ schedule.finished := by
    intro record mem named
    rw [finished] at mem
    exact (mem_append.mp mem).resolve_right fun last => others record last named
  rcases counted with ⟨less, tallied, unfinished⟩ | ⟨all, gone, record, mem, described, unique⟩
  · exact Or.inl ⟨less, active.trans tallied,
      fun record mem named => unfinished record (earlier record mem named) named⟩
  · refine Or.inr ⟨all, active.trans gone, record, ?_, described,
      fun other mem named => unique other (earlier other mem named) named⟩
    rw [finished]
    exact mem_append_left _ mem

/-- What the schedule has to do with what was handed out and reported; the samples in `running` are with
the workers. -/
structure Accounts (suite : Suite Body) (opened : List (Group Body))
    (schedule : GroupSchedule Body Result) (handed : List (Sample Body))
    (completed : List (Sample Body × Result)) (running : List (Sample Body)) : Prop where
  groups : suite.groups = opened ++ schedule.pending
  handedOut : handed ++ schedule.ready = opened.flatMap snd
  held : handed.Perm (completed.map fst ++ running)
  counted : ∀ group ∈ opened, Counted schedule (completions completed group.1) group
  active : ∀ name item, schedule.active.get? name = some item → name ∈ opened.map fst
  finished : ∀ record ∈ schedule.finished, record.groupId ∈ opened.map fst
  once : (schedule.finished.map Finished.groupId).Nodup
  room : 1 ≤ schedule.maxGroups
  few : (schedule.active.length : ℤ) ≤ schedule.maxGroups

variable {pending : List (Group Body)}

theorem GroupSchedule.maxGroups_refillFrom {schedule : GroupSchedule Body Result} :
    (schedule.refillFrom pending).maxGroups = schedule.maxGroups := by
  induction pending generalizing schedule with
  | nil => rfl
  | cons group pending known =>
    rw [refillFrom]
    split_ifs
    · exact known
    · rfl

namespace Accounts

variable {suite : Suite Body} {opened : List (Group Body)} {schedule : GroupSchedule Body Result}
  {handed running : List (Sample Body)} {completed : List (Sample Body × Result)}

section

variable (accounts : Accounts suite opened schedule handed completed running)
include accounts

theorem mem_groups (mem : group ∈ opened) : group ∈ suite.groups := by
  rw [accounts.groups]
  exact mem_append_left _ mem

theorem names : (opened.map fst).Nodup ∧ ∀ group ∈ schedule.pending, group.1 ∉ opened.map fst := by
  have all := suite.names
  rw [accounts.groups, map_append, nodup_append] at all
  obtain ⟨mine, -, apart⟩ := all
  exact ⟨mine, fun group mem inside => apart _ inside _ (mem_map_of_mem mem) rfl⟩

theorem handed_opened (mem : sample ∈ handed) :
    ∃ group ∈ opened, sample ∈ group.2 ∧ sample.rollout.groupId = group.1 := by
  have inside : sample ∈ opened.flatMap snd := by
    rw [← accounts.handedOut]
    exact mem_append_left _ mem
  obtain ⟨group, there, inside⟩ := mem_flatMap.mp inside
  exact ⟨group, there, inside, suite.owned group (accounts.mem_groups there) sample inside⟩

theorem count (mem : group ∈ opened) :
    (completions completed group.1).length + (running.filter (ofGroup group.1)).length
      + (schedule.ready.filter (ofGroup group.1)).length = group.2.length := by
  have samples := filter_ofGroup accounts.names.1
    (fun group there => suite.owned group (accounts.mem_groups there)) mem
  have parts := (accounts.held.filter (ofGroup group.1)).length_eq
  rw [filter_append, length_append, ← map_completions, length_map] at parts
  rw [← accounts.handedOut, filter_append] at samples
  have total := congrArg length samples
  rw [length_append, parts] at total
  exact total

theorem completions_closed (closed : name ∉ opened.map fst) : completions completed name = [] := by
  unfold completions
  rw [filter_eq_nil_iff]
  intro entry mem marked
  have handedOut : entry.1 ∈ handed :=
    accounts.held.mem_iff.mpr (mem_append_left _ (mem_map_of_mem mem))
  obtain ⟨group, there, -, own⟩ := accounts.handed_opened handedOut
  exact closed (mem_map.mpr ⟨group, there, own.symm.trans (ofGroup_iff.mp marked)⟩)

theorem handed_within : handed <+: suite.samples := by
  refine ⟨schedule.ready ++ schedule.pending.flatMap snd, ?_⟩
  unfold Suite.samples
  rw [accounts.groups, flatMap_append, ← accounts.handedOut, append_assoc]

theorem openGroup (next : schedule.pending = group :: pending)
    (free : (schedule.active.length : ℤ) < schedule.maxGroups) :
    Accounts suite (opened ++ [group]) (schedule.openGroup group pending) handed completed running := by
  have fresh : group.1 ∉ opened.map fst := accounts.names.2 group (by rw [next]; exact mem_cons_self)
  have whole : group ∈ suite.groups := by
    rw [accounts.groups, next]
    simp
  have unfinished : ∀ record ∈ schedule.finished, record.groupId ≠ group.1 := by
    intro record mem same
    exact fresh (same ▸ accounts.finished record mem)
  have absent : schedule.active.get? group.1 = none := by
    rw [Option.eq_none_iff_forall_ne_some]
    exact fun item found => fresh (accounts.active _ item found)
  refine ⟨?_, ?_, accounts.held, ?_, ?_, ?_, accounts.once, accounts.room, ?_⟩
  · rw [accounts.groups, next]
    simp [GroupSchedule.openGroup]
  · rw [flatMap_append, ← accounts.handedOut]
    simp [GroupSchedule.openGroup]
  · intro other mem
    rcases mem_append.mp mem with earlier | last
    · have differs : other.1 ≠ group.1 := fun same => fresh (same ▸ mem_map_of_mem earlier)
      exact (accounts.counted other earlier).frame (OrderedTable.get?_push_ne differs)
        (append_nil _).symm (fun _ none_ => nomatch none_)
    · rw [mem_singleton] at last
      subst last
      refine Or.inl ⟨?_, ?_, unfinished⟩
      all_goals rw [accounts.completions_closed fresh]
      · exact length_pos_iff.mpr (suite.nonempty other whole)
      · simp [GroupSchedule.openGroup, OrderedTable.get?_push_self]
  · intro name item found
    rw [map_append]
    rcases OrderedTable.push_cases found with ⟨same, -⟩ | ⟨-, found⟩
    · exact mem_append_right _ (by simp [same])
    · exact mem_append_left _ (accounts.active name item found)
  · intro record mem
    rw [map_append]
    exact mem_append_left _ (accounts.finished record mem)
  · show ((schedule.active.push group.1 _).length : ℤ) ≤ schedule.maxGroups
    rw [OrderedTable.length_push absent]
    omega

theorem refillFrom (rest : schedule.pending = pending) :
    ∃ more, Accounts suite (opened ++ more) (schedule.refillFrom pending) handed completed running ∧
      ((schedule.refillFrom pending).pending = [] ∨ ((schedule.refillFrom pending).active.length : ℤ)
          = (schedule.refillFrom pending).maxGroups) ∧
      (more = [] → schedule.refillFrom pending = schedule) := by
  induction pending generalizing opened schedule with
  | nil =>
    refine ⟨[], ?_, Or.inl rfl, fun _ => ?_⟩
    · rw [append_nil, refillFrom, ← rest]
      exact accounts
    · rw [refillFrom, ← rest]
  | cons group pending known =>
    rw [refillFrom]
    split_ifs with free
    · obtain ⟨more, after, stops, -⟩ := known (accounts.openGroup rest free) rfl
      refine ⟨group :: more, ?_, stops, fun none_ => nomatch none_⟩
      rwa [append_assoc, singleton_append] at after
    · refine ⟨[], ?_, Or.inr ?_, fun _ => ?_⟩
      · rw [append_nil, ← rest]
        exact accounts
      · exact le_antisymm accounts.few (not_lt.mp free)
      · rw [← rest]

theorem exchange {others : List (Sample Body)} (same : others.Perm running) :
    Accounts suite opened schedule handed completed others :=
  { accounts with held := accounts.held.trans (same.symm.append_left _) }

theorem pop {ready : List (Sample Body)} {after : List (Sample Body)}
    (next : schedule.ready = sample :: ready) (taken : after.Perm (sample :: running)) :
    Accounts suite opened { schedule with ready } (handed ++ [sample]) completed after := by
  refine ⟨accounts.groups, ?_, ?_, accounts.counted, accounts.active, accounts.finished, accounts.once,
    accounts.room, accounts.few⟩
  · rw [← accounts.handedOut, next]
    simp
  · calc (handed ++ [sample]).Perm (sample :: handed) := perm_append_singleton sample handed
      _ |>.Perm (sample :: (completed.map fst ++ running)) := accounts.held.cons sample
      _ |>.Perm (completed.map fst ++ sample :: running) := perm_middle.symm
      _ |>.Perm (completed.map fst ++ after) := taken.symm.append_left _

theorem tally (mem : sample ∈ running) : ∃ group ∈ opened, sample.rollout.groupId = group.1 ∧
      (completions completed group.1).length < group.2.length ∧
      schedule.active.get? group.1
        = some { remaining := group.2.length - (completions completed group.1).length,
                 results := (completions completed group.1).map snd } ∧
      ∀ record ∈ schedule.finished, record.groupId ≠ group.1 := by
  have handedOut : sample ∈ handed := accounts.held.mem_iff.mpr (mem_append_right _ mem)
  obtain ⟨group, there, -, own⟩ := accounts.handed_opened handedOut
  have counts := accounts.count there
  have here : 0 < (running.filter (ofGroup group.1)).length :=
    length_pos_of_mem (mem_filter.mpr ⟨mem, ofGroup_iff.mpr own⟩)
  rcases accounts.counted group there with ⟨less, active, unfinished⟩ | ⟨all, -⟩
  · exact ⟨group, there, own, less, active, unfinished⟩
  · omega

/-- A report of a sample that a worker holds. -/
theorem report {rest : List (Sample Body)} (taken : running.Perm (sample :: rest)) (result : Result) :
    ∃ after, schedule.complete sample result = some after ∧ after.maxGroups = schedule.maxGroups ∧
      Accounts suite opened after handed (completed ++ [(sample, result)]) rest := by
  obtain ⟨group, there, own, less, active, unfinished⟩ :=
    accounts.tally (taken.mem_iff.mpr mem_cons_self)
  have held : handed.Perm ((completed ++ [(sample, result)]).map fst ++ rest) := by
    refine (accounts.held.trans (taken.append_left _)).trans ?_
    rw [map_append, append_assoc]
    rfl
  -- What was reported for the group, and for another one.
  have mine : completions (completed ++ [(sample, result)]) group.1
      = completions completed group.1 ++ [(sample, result)] := by
    rw [completions_append, if_pos own]
  have others : ∀ other ∈ opened, other ≠ group → other.1 ≠ group.1 ∧
      completions (completed ++ [(sample, result)]) other.1 = completions completed other.1 := by
    intro other mem differs
    have name : other.1 ≠ group.1 := fun same =>
      differs (inj_on_of_nodup_map accounts.names.1 mem there same)
    refine ⟨name, ?_⟩
    rw [completions_append, if_neg (fun marked => name (marked.symm.trans own))]
  simp only [complete, own, active]
  split_ifs with last
  · -- The last sample of the group.
    refine ⟨_, rfl, rfl, accounts.groups, accounts.handedOut, held, fun other mem => ?_, ?_, ?_, ?_,
      accounts.room, ?_⟩
    · by_cases same : other = group
      · subst same
        rw [mine]
        refine Or.inr ⟨?_, OrderedTable.get?_remove_self, _,
          mem_append_right _ (mem_singleton_self _), ?_, ?_⟩
        · rw [length_append, length_singleton]
          omega
        · simp [recordOf]
        · intro record mem named
          rcases mem_append.mp mem with earlier | last
          · exact absurd named (unfinished record earlier)
          · exact mem_singleton.mp last
      · obtain ⟨name, unchanged⟩ := others other mem same
        rw [unchanged]
        refine (accounts.counted other mem).frame (OrderedTable.get?_remove_ne name) rfl
          fun record last => ?_
        rw [mem_singleton.mp last]
        exact name.symm
    · intro name item found
      rw [OrderedTable.get?_remove] at found
      split_ifs at found
      exact accounts.active name item found
    · intro record mem
      rcases mem_append.mp mem with earlier | last
      · exact accounts.finished record earlier
      · rw [mem_singleton.mp last]
        exact mem_map_of_mem there
    · rw [map_append, nodup_append]
      refine ⟨accounts.once, nodup_singleton _, ?_⟩
      rintro _ earlier _ last rfl
      obtain ⟨record, mem, same⟩ := mem_map.mp earlier
      exact unfinished record mem (same.trans (mem_singleton.mp last))
    · have fewer := OrderedTable.length_remove active
      have few := accounts.few
      dsimp only
      omega
  · refine ⟨_, rfl, rfl, accounts.groups, accounts.handedOut, held, fun other mem => ?_, ?_,
      accounts.finished, accounts.once, accounts.room, ?_⟩
    · by_cases same : other = group
      · subst same
        rw [mine]
        refine Or.inl ⟨?_, ?_, unfinished⟩
        · rw [length_append, length_singleton]
          omega
        · refine OrderedTable.get?_modify_some.mpr ⟨_, active, ?_⟩
          simp only [length_append, length_singleton, map_append, map_singleton]
          push_cast
          rw [sub_add_eq_sub_sub]
      · obtain ⟨name, unchanged⟩ := others other mem same
        rw [unchanged]
        exact (accounts.counted other mem).frame (OrderedTable.get?_modify_ne name)
          (append_nil _).symm (fun _ none_ => nomatch none_)
    · intro name item found
      by_cases same : name = group.1
      · rw [same]
        exact mem_map_of_mem there
      · rw [OrderedTable.get?_modify_ne same] at found
        exact accounts.active name item found
    · rw [OrderedTable.length_modify]
      exact accounts.few

/-- A look that is not cancelled hands a ready sample out, finds every group finished, or waits for a
sample that a worker holds and changes nothing. -/
theorem look : (∃ sample after more, schedule.look false = (.sample sample, after) ∧
      after.maxGroups = schedule.maxGroups ∧ ∀ taken, taken.Perm (sample :: running) →
        Accounts suite (opened ++ more) after (handed ++ [sample]) completed taken) ∨
    (∃ after more, schedule.look false = (.nothing, after) ∧ after.maxGroups = schedule.maxGroups ∧
      Accounts suite (opened ++ more) after handed completed running ∧
      handed = suite.samples ∧
      ∀ group ∈ suite.groups, (completions completed group.1).length = group.2.length) ∨
    (schedule.look false = (.waits, schedule) ∧ running ≠ []) := by
  obtain ⟨more, after, stops, unchanged⟩ := accounts.refillFrom rfl
  change Accounts suite _ schedule.refill _ _ _ at after
  change schedule.refill.pending = [] ∨ (schedule.refill.active.length : ℤ) = schedule.refill.maxGroups
    at stops
  have limit : schedule.refill.maxGroups = schedule.maxGroups := maxGroups_refillFrom
  unfold GroupSchedule.look
  cases ready : schedule.refill.ready with
  | cons sample rest => exact Or.inl ⟨sample, _, more, rfl, limit, fun taken => after.pop ready⟩
  | nil =>
    by_cases idle : schedule.refill.active.length = 0
    · refine Or.inr (Or.inl ⟨_, more, if_pos idle, limit, after, ?_⟩)
      -- With room for a group and none left over, every group was opened.
      have opened : suite.groups = opened ++ more := by
        rcases stops with none_ | full
        · rw [after.groups, none_, append_nil]
        · have room := after.room
          omega
      refine ⟨?_, fun group mem => ?_⟩
      · unfold Suite.samples
        rw [opened, ← after.handedOut, ready, append_nil]
      · rw [opened] at mem
        rcases after.counted group mem with ⟨-, active, -⟩ | ⟨all, -⟩
        · have empty : schedule.refill.active.items = [] := length_eq_zero_iff.mp idle
          have there := OrderedTable.mem_items.mpr active
          rw [empty] at there
          cases there
        · exact all
    · refine Or.inr (Or.inr ⟨?_, ?_⟩)
      · -- A group that was just opened would have left samples ready.
        have none_ : more = [] := by
          cases more with
          | nil => rfl
          | cons group others =>
            have before := congrArg length accounts.handedOut
            have now := congrArg length after.handedOut
            have some_ := length_pos_iff.mpr (suite.nonempty group (after.mem_groups (by simp)))
            rw [ready, append_nil, flatMap_append, length_append, ← before,
              flatMap_cons, length_append, length_append] at now
            omega
        rw [if_neg idle]
        exact Prod.ext rfl (unchanged none_)
      · obtain ⟨⟨name, item⟩, there⟩ := exists_mem_of_length_pos (Nat.pos_of_ne_zero idle)
        have active := OrderedTable.mem_items.mp there
        obtain ⟨group, mem, rfl⟩ := mem_map.mp (after.active name item active)
        have counts := after.count mem
        rcases after.counted group mem with ⟨less, -⟩ | ⟨-, gone, -⟩
        · rintro rfl
          rw [ready] at counts
          simp only [filter_nil, length_nil] at counts
          omega
        · rw [active] at gone
          cases gone

end

end Accounts

/-! ### The workers -/

/-- The steps a worker is sure to have before it. -/
def Phase.steps : Phase Body → ℕ
  | .taking => 1
  | .running _ => 2
  | .returned | .raised => 0

namespace World

variable {suite : Suite Body} {maxGroups : ℤ} {world next : World Body Result}

def running (world : World Body Result) : List (Sample Body) := world.workers.flatMap held

/-- Whether every sample of a group was reported. -/
def Over (world : World Body Result) (group : Group Body) : Prop :=
  (completions world.completed group.1).length = group.2.length

structure Tracks (suite : Suite Body) (maxGroups : ℤ) (world : World Body Result) : Prop where
  limit : world.schedule.maxGroups = maxGroups
  accounts : ∃ opened, Accounts suite opened world.schedule world.handed world.completed world.running
  whole : raised ∉ world.workers
  ended : world.cancelled = false → returned ∈ world.workers →
    world.handed = suite.samples ∧ ∀ group ∈ suite.groups, world.Over group

theorem tracks_initial (start : (schedules suite maxGroups).initial world) :
    Tracks suite maxGroups world := by
  obtain ⟨schedule, workers, built, rfl⟩ := start
  unfold new at built
  split_ifs at built with few
  cases built
  have none_ : (replicate workers (taking : Phase Body)).flatMap held = [] := by
    rw [flatMap_eq_nil_iff]
    intro phase mem
    rw [eq_of_mem_replicate mem]
    rfl
  refine ⟨rfl, ⟨[], rfl, rfl, ?_, ?_, ?_, ?_, nodup_nil, not_lt.mp few, ?_⟩, ?_, ?_⟩
  · rw [running, none_]
    rfl
  · exact fun _ none_ => nomatch none_
  · exact fun _ _ none_ => nomatch none_
  · exact fun _ none_ => nomatch none_
  · show ((0 : ℕ) : ℤ) ≤ maxGroups
    omega
  · exact fun mem => nomatch eq_of_mem_replicate mem
  · exact fun _ mem => nomatch eq_of_mem_replicate mem

variable {worker : ℕ}

theorem running_set {phase : Phase Body} (found : world.workers[worker]? = some phase) :
    ∃ rest, world.running.Perm (phase.held ++ rest) ∧
      ∀ other, ((world.workers.set worker other).flatMap held).Perm (other.held ++ rest) :=
  flatMap_set held found

section

variable (tracks : Tracks suite maxGroups world)
include tracks

theorem Tracks.look {cancelled : Bool} (found : world.workers[worker]? = some .taking) :
    Tracks suite maxGroups (world.looked worker cancelled) := by
  obtain ⟨opened, accounts⟩ := tracks.accounts
  obtain ⟨rest, before, after⟩ := running_set found
  have others : ∀ phase, phase ≠ .raised → raised ∉ world.workers.set worker phase :=
    fun phase differs mem => (mem_set mem).elim (fun same => differs same.symm) tracks.whole
  have same : ∀ phase : Phase Body, phase.held = [] →
      ((world.workers.set worker phase).flatMap held).Perm world.running :=
    fun phase none_ => (after phase).trans (by rw [none_]; exact before.symm)
  cases cancelled with
  | true =>
    unfold looked
    refine ⟨tracks.limit, ⟨opened, accounts.exchange (same .returned rfl)⟩, others _ (by simp), ?_⟩
    intro calm
    rw [Bool.or_true] at calm
    cases calm
  | false =>
    unfold looked
    rcases accounts.look with ⟨sample, schedule, more, answered, limit, kept⟩ |
      ⟨schedule, more, answered, limit, kept, done_⟩ | ⟨answered, -⟩
    · rw [answered]
      have handedOut := kept _ ((after (.running sample)).trans (before.symm.cons sample))
      refine ⟨limit.trans tracks.limit, ⟨_, handedOut⟩, others _ (by simp), fun calm mem => ?_⟩
      -- Where a worker has returned, every sample was handed out before.
      have all := (tracks.ended calm ((mem_set mem).resolve_left (by simp))).1
      have more := handedOut.handed_within.length_le
      rw [length_append, all, length_singleton] at more
      omega
    · rw [answered]
      exact ⟨limit.trans tracks.limit, ⟨_, kept.exchange (same .returned rfl)⟩, others _ (by simp),
        fun _ _ => done_⟩
    · rw [answered]
      exact ⟨tracks.limit, ⟨opened, accounts⟩, tracks.whole, tracks.ended⟩

theorem Tracks.report {result : Result} (found : world.workers[worker]? = some (.running sample)) :
    Tracks suite maxGroups (world.reported worker sample result) := by
  obtain ⟨opened, accounts⟩ := tracks.accounts
  obtain ⟨rest, before, after⟩ := running_set found
  obtain ⟨schedule, accepted, limit, kept⟩ := accounts.report before result
  unfold reported
  rw [accepted]
  refine ⟨limit.trans tracks.limit, ⟨opened, kept.exchange (after .taking)⟩, ?_, fun calm mem => ?_⟩
  · exact fun mem => (mem_set mem).elim (by simp) tracks.whole
  · -- Where a worker has returned, no sample is left with another one.
    have done_ := (tracks.ended calm ((mem_set mem).resolve_left (by simp))).2
    obtain ⟨group, there, -, less, -⟩ := accounts.tally (before.mem_iff.mpr mem_cons_self)
    have all : world.Over group := done_ group (accounts.mem_groups there)
    unfold Over at all
    omega

theorem Tracks.step {move : Move Result} (stepped : world.step move = some next) :
    Tracks suite maxGroups next := by
  cases move with
  | look worker cancelled =>
    simp only [World.step] at stepped
    split at stepped
    next found =>
        cases stepped
        exact tracks.look found
    next => cases stepped
  | report worker result =>
    simp only [World.step] at stepped
    split at stepped
    next sample found =>
        cases stepped
        exact tracks.report found
    next => cases stepped

end

theorem tracks_reachable (reached : (schedules suite maxGroups).Reachable always world) :
    Tracks suite maxGroups world :=
  reached.invariant (Tracks suite maxGroups) (fun _ start => tracks_initial start)
    (fun _ _ _ _ stepped tracks => tracks.step stepped)

/-! ### The results -/

section

variable (tracks : Tracks suite maxGroups world)
include tracks

theorem Tracks.over_iff (mem : group ∈ suite.groups) :
    world.Over group ↔ ((completions world.completed group.1).map fst).Perm group.2 := by
  obtain ⟨opened, accounts⟩ := tracks.accounts
  have within : (world.completed.map fst).Subperm suite.samples :=
    ((sublist_append_left _ _).subperm.trans accounts.held.symm.subperm).trans
      accounts.handed_within.sublist.subperm
  have some_ : ((completions world.completed group.1).map fst).Subperm group.2 := by
    rw [map_completions]
    have filtered := within.filter (ofGroup group.1)
    rwa [Suite.samples, filter_ofGroup suite.names suite.owned mem] at filtered
  unfold Over
  constructor
  · intro all
    refine some_.perm_of_length_le ?_
    rw [length_map, all]
  · intro same
    rw [← same.length_eq, length_map]

theorem Tracks.finished (mem : group ∈ suite.groups) :
    ((∃ record ∈ world.schedule.finished, record.groupId = group.1) ↔ world.Over group) ∧
    ∀ record ∈ world.schedule.finished, record.groupId = group.1 →
      recordOf group.1 (completions world.completed group.1) = some record := by
  obtain ⟨opened, accounts⟩ := tracks.accounts
  have nonempty := length_pos_iff.mpr (suite.nonempty group mem)
  rw [accounts.groups, mem_append] at mem
  have none_ : (∀ record ∈ world.schedule.finished, record.groupId ≠ group.1) →
      (completions world.completed group.1).length ≠ group.2.length →
      ((∃ record ∈ world.schedule.finished, record.groupId = group.1) ↔
        (completions world.completed group.1).length = group.2.length) ∧
      ∀ record ∈ world.schedule.finished, record.groupId = group.1 →
        recordOf group.1 (completions world.completed group.1) = some record := by
    intro unfinished open_
    refine ⟨⟨?_, fun all => absurd all open_⟩, fun record there named => absurd named (unfinished record there)⟩
    rintro ⟨record, there, named⟩
    exact absurd named (unfinished record there)
  rcases mem with mem | closed
  · rcases accounts.counted group mem with ⟨less, -, unfinished⟩ | ⟨all, -, record, there, described, unique⟩
    · exact none_ unfinished (Nat.ne_of_lt less)
    · refine ⟨⟨fun _ => all, fun _ => ⟨record, there, ?_⟩⟩, fun other inside named => ?_⟩
      · obtain ⟨_, -, rfl⟩ := Option.map_eq_some_iff.mp described
        rfl
      · rw [described, unique other inside named]
  · have name : group.1 ∉ opened.map fst := accounts.names.2 group closed
    refine none_ (fun record there named => name (named ▸ accounts.finished record there)) ?_
    rw [accounts.completions_closed name]
    exact Nat.ne_of_lt nonempty

theorem Tracks.moves (calm : world.cancelled = false) (workers : world.workers ≠ [])
    (mem : group ∈ suite.groups) (unfinished : ¬ world.Over group) :
    (∃ (worker : ℕ) (sample : Sample Body), world.workers[worker]? = some (.running sample)) ∨
      (∃ worker : ℕ, world.workers[worker]? = some .taking) ∧
        ∃ sample after, world.schedule.look false = (.sample sample, after) := by
  have working : returned ∉ world.workers := fun there =>
    unfinished ((tracks.ended calm there).2 group mem)
  obtain ⟨opened, accounts⟩ := tracks.accounts
  rcases accounts.look with ⟨sample, after, _, answered, -⟩ | ⟨_, _, -, -, -, -, done_⟩ | ⟨-, held⟩
  · obtain ⟨phase, there⟩ := exists_mem_of_ne_nil _ workers
    obtain ⟨worker, found⟩ := getElem?_of_mem there
    cases phase with
    | taking => exact Or.inr ⟨⟨worker, found⟩, sample, after, answered⟩
    | running sample => exact Or.inl ⟨worker, sample, found⟩
    | returned => exact absurd there working
    | raised => exact absurd there tracks.whole
  · exact absurd (done_ group mem) unfinished
  · obtain ⟨sample, inside⟩ := exists_mem_of_ne_nil _ held
    obtain ⟨phase, there, inside⟩ := mem_flatMap.mp inside
    obtain ⟨worker, found⟩ := getElem?_of_mem there
    cases phase with
    | running sample => exact Or.inl ⟨worker, sample, found⟩
    | taking | returned | raised => cases inside

end

/-- The work that is left: two steps for every sample that was not handed out, one to report each sample
that was, and one for each worker to return. -/
def work (suite : Suite Body) (world : World Body Result) : ℕ :=
  2 * (suite.samples.length - world.handed.length) + (world.workers.map Phase.steps).sum

/-- A step changes nothing or uses up work. -/
theorem Tracks.work_step {move : Move Result} (tracks : Tracks suite maxGroups world)
    (stepped : world.step move = some next) : next = world ∨ next.work suite < world.work suite := by
  have after := tracks.step stepped
  obtain ⟨_, accounts⟩ := tracks.accounts
  obtain ⟨_, later⟩ := after.accounts
  have now := later.handed_within.length_le
  cases move with
  | look worker cancelled =>
    simp only [World.step] at stepped
    split at stepped
    next found =>
        cases stepped
        have steps := sum_set Phase.steps found
        have returns : ∀ schedule called, ({ world with
            schedule := schedule, workers := world.workers.set worker .returned,
            cancelled := called } : World Body Result).work suite < world.work suite := by
          intro schedule called
          have one := steps .returned
          simp only [work, Phase.steps] at one ⊢
          omega
        cases cancelled with
        | true => exact Or.inr (returns world.schedule _)
        | false =>
          unfold looked at now ⊢
          rcases accounts.look with ⟨sample, schedule, _, answered, -⟩ |
            ⟨schedule, _, answered, -⟩ | ⟨answered, -⟩
          · rw [answered] at now ⊢
            have one := steps (.running sample)
            simp only [work, Phase.steps, length_append, length_singleton] at now one ⊢
            omega
          · rw [answered]
            exact Or.inr (returns schedule _)
          · rw [answered]
            exact Or.inl rfl
    next => cases stepped
  | report worker result =>
    simp only [World.step] at stepped
    split at stepped
    next sample found =>
        cases stepped
        have steps := sum_set Phase.steps found
        have one := steps .taking
        have none_ := steps .raised
        refine Or.inr ?_
        unfold reported
        split
        · simp only [work, Phase.steps] at one ⊢
          omega
        · simp only [work, Phase.steps] at none_ ⊢
          omega
    next => cases stepped

end World

section Claims

variable {maxGroups : ℤ} {world : World Body Result}

/-- Whether a group is among the finished ones. -/
def World.Closed (world : World Body Result) (group : Group Body) : Prop :=
  ∃ record ∈ world.schedule.finished, record.groupId = group.1

/-- **A suite through its schedule.** At most `max_groups` groups are active, and what was handed out are
the first samples of the suite, each once. A group is finished once all its samples were reported, with
the results that were reported for them. No report raises. `take` returns nothing uncancelled only when
every sample was handed out and every group is finished. Until then, while nothing is cancelled, a worker
holds a sample or one that looks is given one; and every step that changes anything uses up work. -/
theorem group_schedule (suite : Suite Body)
    (reached : (schedules suite maxGroups).Reachable always world) :
    world.handed <+: suite.samples ∧
    (world.schedule.active.length : ℤ) ≤ maxGroups ∧
    (∀ group ∈ suite.groups,
      (world.Closed group ↔ ((completions world.completed group.1).map fst).Perm group.2) ∧
      ∀ record ∈ world.schedule.finished, record.groupId = group.1 →
        recordOf group.1 (completions world.completed group.1) = some record) ∧
    (world.schedule.finished.map Finished.groupId).Nodup ∧
    (∀ record ∈ world.schedule.finished, record.groupId ∈ suite.groups.map fst) ∧
    raised ∉ world.workers ∧
    (∀ after, world.schedule.look false = (.nothing, after) →
      world.handed = suite.samples ∧ ∀ group ∈ suite.groups, world.Closed group) ∧
    (world.cancelled = false → (returned ∈ world.workers →
        world.handed = suite.samples ∧ ∀ group ∈ suite.groups, world.Closed group) ∧
      (world.workers ≠ [] → (∃ group ∈ suite.groups, ¬ world.Closed group) →
        (∃ (worker : ℕ) (sample : Sample Body), world.workers[worker]? = some (.running sample)) ∨
        (∃ worker : ℕ, world.workers[worker]? = some .taking) ∧
          ∃ sample after, world.schedule.look false = (.sample sample, after))) ∧
    ∀ move next, world.step move = some next → next = world ∨ next.work suite < world.work suite := by
  have tracks := World.tracks_reachable reached
  obtain ⟨opened, accounts⟩ := tracks.accounts
  have closed : ∀ group ∈ suite.groups, world.Closed group ↔ world.Over group :=
    fun group member => (tracks.finished member).1
  refine ⟨accounts.handed_within, tracks.limit ▸ accounts.few, fun group member => ?_, accounts.once, ?_,
    tracks.whole, fun after answered => ?_, fun calm => ⟨fun returned => ?_, fun workers some_ => ?_⟩,
    fun move next => tracks.work_step⟩
  · exact ⟨(closed group member).trans (tracks.over_iff member), (tracks.finished member).2⟩
  · intro record member
    rw [accounts.groups, map_append]
    exact mem_append_left _ (accounts.finished record member)
  · rcases accounts.look with ⟨_, _, _, other, -⟩ | ⟨_, _, -, -, -, all, done_⟩ | ⟨other, -⟩
    · rw [other] at answered
      cases answered
    · exact ⟨all, fun group member => (closed group member).mpr (done_ group member)⟩
    · rw [other] at answered
      cases answered
  · obtain ⟨all, done_⟩ := tracks.ended calm returned
    exact ⟨all, fun group member => (closed group member).mpr (done_ group member)⟩
  · obtain ⟨group, member, unfinished⟩ := some_
    exact tracks.moves calm workers member fun done_ => unfinished ((closed group member).mpr done_)

/-- A sample of a task, marked with a group. -/
def marked (group : String) (index : ℕ) : Sample Unit :=
  { taskId := group, body := (), requestSeed := index,
    rollout := { groupId := group, passIndex := 0, sampleIndex := index, groupSize := 2, samplingSeed := index } }

/-- A group of two samples and one of a single sample. -/
def smallSuite : Suite Unit where
  groups := [("a", [marked "a" 0, marked "a" 1]), ("b", [marked "b" 0])]
  names := by decide
  nonempty := by decide
  owned := by decide

/-- Two workers share the first group, which the second one finishes; one of them waits in between. -/
def sharedGroup : List (Move ℕ) :=
  [.look 0 false, .look 1 false, .report 1 10, .look 1 false, .report 0 20, .look 1 false]

/-- The first group is finished with both results in the order of the reports, and the sample of the
second group is with a worker. -/
theorem group_schedule_shared : ∃ world : World Unit ℕ,
    (schedules smallSuite 1).Reachable always world ∧ world.handed = smallSuite.samples ∧
      (world.schedule.active.length : ℤ) ≤ 1 ∧ world.Closed ("a", [marked "a" 0, marked "a" 1]) ∧
      world.schedule.finished = [⟨"a", "a", 0, [10, 20]⟩] ∧ raised ∉ world.workers := by
  have executed : ((schedules smallSuite 1).run always
      ⟨⟨smallSuite.groups, [], ∅, [], 1⟩, [.taking, .taking], false, [], []⟩ sharedGroup).map
        (fun world => (world.handed, world.schedule.finished))
      = some (smallSuite.samples, [⟨"a", "a", 0, [10, 20]⟩]) := by
    decide +kernel
  obtain ⟨world, finish, same⟩ := Option.map_eq_some_iff.mp executed
  obtain ⟨handed, finished⟩ := Prod.mk.inj same
  have reached : (schedules smallSuite 1).Reachable always world :=
    reachable_of_run ⟨_, 2, rfl, rfl⟩ finish
  obtain ⟨-, few, -, -, -, whole, -⟩ := group_schedule smallSuite reached
  refine ⟨world, reached, handed, few, ⟨⟨"a", "a", 0, [10, 20]⟩, ?_, rfl⟩, finished, whole⟩
  rw [finished]
  exact mem_singleton_self _

end Claims

end TinyDSV41.Workloads
