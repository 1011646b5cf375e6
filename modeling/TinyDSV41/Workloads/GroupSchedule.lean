/-
**The groups of a full suite and their schedule (`rollout_manager/workloads.py`).**

`suite_groups` copies every case once for each sample of each pass. A `GroupSchedule` opens the groups in
that order, at most `max_groups` at a time, and the workers of `runner.py` take the opened samples one
after the other, report each result and come back for the next.

A worker that finds nothing to take waits for a report or for 0.2 seconds, and looks again. Every look
is one step here, with what `cancelled()` answered as its argument.

* `suiteGroups_suite` — what `suite_groups` builds: names of its own, no group without samples, every
  sample marked with its group.
-/

import TinyDSV41.Lib.JsonLiteral
import TinyDSV41.Lib.OrderedTable
import TinyDSV41.Lib.Transition
import Mathlib.Data.List.Range

namespace TinyDSV41.Workloads

open List Lib

/-! ### `suite_groups` -/

/-- The `rollout` of a sample. -/
structure Rollout where
  groupId : String
  passIndex : ℕ
  sampleIndex : ℕ
  groupSize : ℤ
  samplingSeed : ℕ
deriving DecidableEq

/-- A case of the suite: its task and the fields that are only copied. -/
structure BenchmarkCase (Body : Type) where
  taskId : String
  body : Body
deriving DecidableEq

structure Sample (Body : Type) where
  taskId : String
  body : Body
  /-- `request["seed"]` -/
  requestSeed : ℕ
  rollout : Rollout
deriving DecidableEq

abbrev Group (Body : Type) := String × List (Sample Body)

variable {Body Result : Type}

def groupName (repeat_ ordinal : ℕ) : String :=
  "p" ++ toString repeat_ ++ "-task" ++ toString ordinal

/-- The text whose digest seeds a sample. -/
def sampleIdentity (seed : ℤ) (repeat_ : ℕ) (task : String) (sample : ℕ) : String :=
  toString seed ++ ":" ++ toString repeat_ ++ ":" ++ task ++ ":" ++ toString sample

/-- What the standard library computes for the suite: the order in which a seeded generator leaves a
shuffled range, and the first four bytes of the SHA-256 digest of a text. -/
structure SuiteRandom where
  shuffled : ℤ → ℕ → List ℕ
  digest : String → ℕ
  shuffled_perm : ∀ seed length, (shuffled seed length).Perm (range length)

def sampleOf (random : SuiteRandom) (rollouts seed : ℤ) (repeat_ ordinal : ℕ)
    (benchmark : BenchmarkCase Body) (sample : ℕ) : Sample Body :=
  let samplingSeed := random.digest (sampleIdentity seed repeat_ benchmark.taskId sample)
  { taskId := benchmark.taskId, body := benchmark.body, requestSeed := samplingSeed,
    rollout :=
      { groupId := groupName repeat_ ordinal, passIndex := repeat_, sampleIndex := sample,
        groupSize := rollouts, samplingSeed } }

def groupOf (random : SuiteRandom) (cases : List (BenchmarkCase Body)) (rollouts seed : ℤ)
    (repeat_ ordinal : ℕ) : Option (Group Body) :=
  cases[ordinal]?.map fun benchmark => (groupName repeat_ ordinal,
    (range rollouts.toNat).map (sampleOf random rollouts seed repeat_ ordinal benchmark))

def suiteGroups (random : SuiteRandom) (cases : List (BenchmarkCase Body)) (rollouts passes seed : ℤ) :
    Except String (List (Group Body)) :=
  if cases = [] ∨ ¬ (cases.map BenchmarkCase.taskId).Nodup then
    .error "full-suite cases must have unique task IDs"
  else if min rollouts passes < 1 then
    .error "rollout and pass counts must be positive"
  else
    .ok ((range passes.toNat).flatMap fun (repeat_ : ℕ) =>
      (random.shuffled (seed + repeat_) cases.length).filterMap
        (groupOf random cases rollouts seed repeat_))

/-! ### What `suite_groups` builds -/

structure Suite (Body : Type) where
  groups : List (Group Body)
  names : (groups.map Prod.fst).Nodup
  nonempty : ∀ group ∈ groups, group.2 ≠ []
  owned : ∀ group ∈ groups, ∀ sample ∈ group.2, sample.rollout.groupId = group.1

/-- All samples, in the order of their groups. -/
def Suite.samples (suite : Suite Body) : List (Sample Body) := suite.groups.flatMap Prod.snd

theorem dash_not_mem_toDigits (number : ℕ) : '-' ∉ Nat.toDigits 10 number := by
  intro mem
  have isDigit := Nat.isDigit_of_mem_toDigits (by decide) (by decide) mem
  revert isDigit
  decide

theorem groupName_inj {first second case other : ℕ}
    (same : groupName first case = groupName second other) : first = second ∧ case = other := by
  have characters := congrArg String.toList same
  simp only [groupName, String.toList_append, Nat.toString_eq_repr, Nat.toList_repr] at characters
  have cut : ∀ number ordinal : ℕ, "p".toList ++ Nat.toDigits 10 number ++ "-task".toList ++ Nat.toDigits 10 ordinal
      = ('p' :: Nat.toDigits 10 number) ++ '-' :: ("task".toList ++ Nat.toDigits 10 ordinal) := by
    intro number ordinal
    simp
  rw [cut, cut, append_cons_inj_of_notMem] at characters
  · obtain ⟨pass, -, ordinal⟩ := characters
    refine ⟨toDigits_inj (cons.inj pass).2, toDigits_inj (append_cancel_left ordinal)⟩
  · rw [mem_cons]
    rintro (equal | mem)
    · revert equal
      decide
    · exact dash_not_mem_toDigits first mem
  · rw [mem_append]
    rintro (inside | mem)
    · revert inside
      decide
    · exact dash_not_mem_toDigits case mem

variable {cases : List (BenchmarkCase Body)} {random : SuiteRandom} {rollouts : ℤ}

theorem mem_groupOf {seed : ℤ} {repeat_ ordinal : ℕ} {group : Group Body}
    (built : groupOf random cases rollouts seed repeat_ ordinal = some group) :
    group.1 = groupName repeat_ ordinal ∧ ∃ benchmark, cases[ordinal]? = some benchmark ∧
      group.2 = (range rollouts.toNat).map (sampleOf random rollouts seed repeat_ ordinal benchmark) := by
  obtain ⟨benchmark, found, rfl⟩ := Option.map_eq_some_iff.mp built
  exact ⟨rfl, benchmark, found, rfl⟩

variable {groups : List (Group Body)}

section

variable {passes seed : ℤ} (built : suiteGroups random cases rollouts passes seed = .ok groups)
include built

theorem suiteGroups_eq_ok :
    1 ≤ rollouts ∧ 1 ≤ passes ∧ groups = (range passes.toNat).flatMap fun (repeat_ : ℕ) =>
      (random.shuffled (seed + repeat_) cases.length).filterMap
        (groupOf random cases rollouts seed repeat_) := by
  unfold suiteGroups at built
  split_ifs at built with unnamed few
  exact ⟨by omega, by omega, (Except.ok.inj built).symm⟩

theorem names_suiteGroups : (groups.map Prod.fst).Nodup := by
  obtain ⟨-, -, rfl⟩ := suiteGroups_eq_ok built
  rw [map_flatMap]
  have named : ∀ {repeat_ ordinal : ℕ} {name : String},
      name ∈ (groupOf random cases rollouts seed repeat_ ordinal).map Prod.fst →
        name = groupName repeat_ ordinal := by
    intro repeat_ ordinal name mem
    obtain ⟨group, made, rfl⟩ := Option.map_eq_some_iff.mp mem
    exact (mem_groupOf made).1
  refine nodup_flatMap.mpr ⟨fun repeat_ _ => ?_, ?_⟩
  · rw [map_filterMap]
    have order := (random.shuffled_perm (seed + repeat_) cases.length).nodup_iff.mpr nodup_range
    refine order.filterMap fun first second name one two => ?_
    exact (groupName_inj ((named one).symm.trans (named two))).2
  · refine nodup_range.imp fun {first second} differs => ?_
    intro name one two
    simp only [map_filterMap] at one two
    obtain ⟨_, -, one⟩ := mem_filterMap.mp one
    obtain ⟨_, -, two⟩ := mem_filterMap.mp two
    exact differs (groupName_inj ((named one).symm.trans (named two))).1

/-- `suite_groups` builds groups with names of their own and samples of their own, all marked with their
group; no two samples are equal. -/
theorem suiteGroups_suite : ∃ suite : Suite Body, suite.groups = groups ∧ suite.samples.Nodup := by
  have names := names_suiteGroups built
  obtain ⟨some_, -, whole⟩ := suiteGroups_eq_ok built
  have each : ∀ group ∈ groups, ∃ repeat_ ordinal benchmark, group.1 = groupName repeat_ ordinal ∧
      group.2 = (range rollouts.toNat).map (sampleOf random rollouts seed repeat_ ordinal benchmark) := by
    intro group member
    rw [whole] at member
    obtain ⟨repeat_, -, member⟩ := mem_flatMap.mp member
    obtain ⟨ordinal, -, made⟩ := mem_filterMap.mp member
    obtain ⟨name, benchmark, -, samples⟩ := mem_groupOf made
    exact ⟨repeat_, ordinal, benchmark, name, samples⟩
  have owned : ∀ group ∈ groups, ∀ sample ∈ group.2, sample.rollout.groupId = group.1 := by
    intro group member sample inside
    obtain ⟨repeat_, ordinal, benchmark, name, samples⟩ := each group member
    rw [samples] at inside
    obtain ⟨_, -, rfl⟩ := mem_map.mp inside
    exact name.symm
  refine ⟨⟨groups, names, fun group member => ?_, owned⟩, rfl, nodup_flatMap.mpr ⟨?_, ?_⟩⟩
  · obtain ⟨_, _, _, -, samples⟩ := each group member
    rw [samples, Ne, map_eq_nil_iff, range_eq_nil]
    omega
  · intro group member
    obtain ⟨_, _, _, -, samples⟩ := each group member
    rw [samples]
    exact nodup_range.map fun first second same =>
      congrArg (fun sample : Sample Body => sample.rollout.sampleIndex) same
  · refine (pairwise_map.mp names).imp_of_mem fun {first second} one two differs => ?_
    intro sample inside other
    exact differs ((owned first one sample inside).symm.trans (owned second two sample other))

end

/-- Two cases, sampled twice in each of two passes. -/
def twoPasses : Except String (List (Group Unit)) :=
  suiteGroups ⟨fun _ => range, fun _ => 0, fun _ _ => .rfl⟩ [⟨"echo", ()⟩, ⟨"sort", ()⟩] 2 2 7

theorem suiteGroups_suite_pair : ∃ groups, twoPasses = .ok groups ∧ groups.length = 4 ∧
    ∃ suite : Suite Unit, suite.groups = groups ∧ suite.samples.Nodup := by
  obtain ⟨groups, built, four⟩ : ∃ groups, twoPasses = .ok groups ∧ groups.length = 4 := ⟨_, rfl, rfl⟩
  exact ⟨groups, built, four, suiteGroups_suite built⟩

/-! ### `GroupSchedule` -/

/-- An entry of `active`. -/
structure Tally (Result : Type) where
  remaining : ℤ
  results : List Result
deriving DecidableEq

/-- An entry of `finished`. -/
structure Finished (Result : Type) where
  groupId : String
  task : String
  passIndex : ℕ
  results : List Result
deriving DecidableEq

structure GroupSchedule (Body Result : Type) where
  pending : List (Group Body)
  ready : List (Sample Body)
  active : OrderedTable String (Tally Result)
  finished : List (Finished Result)
  maxGroups : ℤ

namespace GroupSchedule

/-- `GroupSchedule(groups, max_groups)` -/
def new (groups : List (Group Body)) (maxGroups : ℤ) : Except String (GroupSchedule Body Result) :=
  if maxGroups < 1 then .error "at least one active group is required"
  else .ok { pending := groups, ready := [], active := ∅, finished := [], maxGroups }

/-- The next pending group becomes active. -/
def openGroup (schedule : GroupSchedule Body Result) (group : Group Body) (pending : List (Group Body)) :
    GroupSchedule Body Result :=
  { schedule with
    pending
    active := schedule.active.push group.1 { remaining := group.2.length, results := [] }
    ready := schedule.ready ++ group.2 }

/-- Groups are opened as long as there is room. -/
def refillFrom (schedule : GroupSchedule Body Result) : List (Group Body) → GroupSchedule Body Result
  | [] => { schedule with pending := [] }
  | group :: pending =>
    if (schedule.active.length : ℤ) < schedule.maxGroups then
      (schedule.openGroup group pending).refillFrom pending
    else
      { schedule with pending := group :: pending }

def refill (schedule : GroupSchedule Body Result) : GroupSchedule Body Result :=
  schedule.refillFrom schedule.pending

/-- What one look of `take` comes to. -/
inductive Look (Body : Type) where
  | sample (sample : Sample Body)
  /-- `None` -/
  | nothing
  /-- The condition is waited for. -/
  | waits
deriving DecidableEq

/-- The body of the loop of `take`, under the lock. -/
def look (schedule : GroupSchedule Body Result) (cancelled : Bool) :
    Look Body × GroupSchedule Body Result :=
  if cancelled then (.nothing, schedule)
  else
    match schedule.refill.ready with
    | sample :: ready => (.sample sample, { schedule.refill with ready })
    | [] =>
      if schedule.refill.active.length = 0 then (.nothing, schedule.refill)
      else (.waits, schedule.refill)

/-- `complete`; none where the group is not active (`KeyError`). -/
def complete (schedule : GroupSchedule Body Result) (sample : Sample Body) (result : Result) :
    Option (GroupSchedule Body Result) :=
  let group := sample.rollout.groupId
  match schedule.active.get? group with
  | none => none
  | some item =>
    let item : Tally Result :=
      { remaining := item.remaining - 1, results := item.results ++ [result] }
    if item.remaining = 0 then
      some { schedule with
        active := schedule.active.remove group
        finished := schedule.finished ++
          [{ groupId := group, task := sample.taskId, passIndex := sample.rollout.passIndex,
             results := item.results }] }
    else
      some { schedule with active := schedule.active.modify group fun _ => item }

end GroupSchedule

/-! ### The workers -/

inductive Phase (Body : Type) where
  /-- In `take`. -/
  | taking
  /-- In the episode of a sample. -/
  | running (sample : Sample Body)
  | returned
  /-- `complete` raised. -/
  | raised
deriving DecidableEq

def Phase.held : Phase Body → List (Sample Body)
  | .running sample => [sample]
  | .taking | .returned | .raised => []

/-- A schedule and its workers, with what has happened so far. -/
structure World (Body Result : Type) where
  schedule : GroupSchedule Body Result
  workers : List (Phase Body)
  /-- Whether `cancelled()` has answered yes. -/
  cancelled : Bool
  /-- What `take` has returned. -/
  handed : List (Sample Body)
  /-- What was reported. -/
  completed : List (Sample Body × Result)

inductive Move (Result : Type) where
  /-- A worker in `take` looks. -/
  | look (worker : ℕ) (cancelled : Bool)
  /-- A worker reports the result of its sample. -/
  | report (worker : ℕ) (result : Result)

namespace World

def looked (world : World Body Result) (worker : ℕ) (cancelled : Bool) : World Body Result :=
  match world.schedule.look cancelled with
  | (.sample sample, schedule) =>
    { world with schedule, workers := world.workers.set worker (.running sample),
                 handed := world.handed ++ [sample] }
  | (.nothing, schedule) =>
    { world with schedule, workers := world.workers.set worker .returned,
                 cancelled := world.cancelled || cancelled }
  | (.waits, schedule) => { world with schedule }

def reported (world : World Body Result) (worker : ℕ) (sample : Sample Body) (result : Result) :
    World Body Result :=
  match world.schedule.complete sample result with
  | some schedule =>
    { world with schedule, workers := world.workers.set worker .taking,
                 completed := world.completed ++ [(sample, result)] }
  | none => { world with workers := world.workers.set worker .raised }

def step (world : World Body Result) : Move Result → Option (World Body Result)
  | .look worker cancelled =>
    match world.workers[worker]? with
    | some .taking => some (world.looked worker cancelled)
    | _ => none
  | .report worker result =>
    match world.workers[worker]? with
    | some (.running sample) => some (world.reported worker sample result)
    | _ => none

end World

/-- A schedule of a suite with some workers. -/
def schedules (suite : Suite Body) (maxGroups : ℤ) : System (World Body Result) (Move Result) where
  initial world := ∃ schedule workers, GroupSchedule.new suite.groups maxGroups = .ok schedule ∧
    world = { schedule, workers := replicate workers .taking, cancelled := false, handed := [],
              completed := [] }
  step := World.step

end TinyDSV41.Workloads
