/-
**The batches of supervised fine-tuning.**

Every rank keeps a cursor into the dataset, which is read in a circle. In one step the ranks of one
context-parallel group read the same examples, each group and each microbatch its own; then every cursor
moves on by all that was read. A checkpoint holds the cursor, and a run that resumes from it checks it
against the completed steps.

* `makeBatches`, `train` — the batches of one step, and the steps of a rank up to its end or failure.
* `read_once` — each position of a step is read by one group in one microbatch.
* `trainSteps_follows` — a run reads the batches of its steps, whichever step it has started at.
* `sft_batches` — coverage of a step, the cursor of a run, and the batches of a resumed run.

What the model makes of a batch is given from outside, as whether the update of a step works. A run
reads the dataset of its checkpoint, whose identity holds the digest of the file.
-/

import TinyDSV41.Lib.Checks
import TinyDSV41.Lib.Slices
import Mathlib.Data.List.Nodup

namespace TinyDSV41.Sft

open List Lib

/-! ### Examples and batches -/

structure Example where
  inputIds : List ℤ
  labels : List ℤ
  attentionMask : List ℤ
deriving DecidableEq

/-- The examples of a file; `load_jsonl` raises on one without examples. -/
structure Dataset where
  examples : List Example
  positive : 0 < examples.length

/-- `examples[position % len(examples)]` -/
def Dataset.read (data : Dataset) (position : ℕ) : Example :=
  data.examples.get ⟨position % data.examples.length, Nat.mod_lt _ data.positive⟩

/-- The tensors of a batch, row by row. -/
structure Batch where
  inputIds : List (List ℤ)
  labels : List (List ℤ)
  attentionMask : List (List ℤ)
deriving DecidableEq

/-- A row of a tensor that is filled on the right. -/
def padTo (length : ℕ) (fill : ℤ) (row : List ℤ) : List ℤ :=
  row ++ replicate (length - row.length) fill

/-- `collate_examples` -/
def collateExamples (examples : List Example) (padTokenId : ℤ) (padToMultipleOf : ℕ) :
    Except String Batch :=
  if examples = [] then .error "cannot collate an empty SFT batch"
  else if padTokenId < 0 then .error "pad_token_id must be a nonnegative integer"
  else if padToMultipleOf = 0 then .error "pad_to_multiple_of must be a positive integer"
  else
    let longest := (examples.map fun item => item.inputIds.length).foldr max 0
    let length := (longest + padToMultipleOf - 1) / padToMultipleOf * padToMultipleOf
    if ∀ item ∈ examples, item.inputIds.length ≠ 0 ∧ item.labels.length = item.inputIds.length ∧
        item.attentionMask.length = item.inputIds.length then
      .ok {
        inputIds := examples.map fun item => padTo length padTokenId item.inputIds
        labels := examples.map fun item => padTo length (-100) item.labels
        attentionMask := examples.map fun item => padTo length 0 item.attentionMask }
    else .error "SFT input_ids, labels and attention_mask must have the same nonzero length"

/-! ### Runs -/

/-- The topology and the batches that a checkpoint is bound to, as `validate_args` accepts them. -/
structure Config where
  batchSize : ℕ
  accumulation : ℕ
  cpSize : ℕ
  worldSize : ℕ
  batchSize_pos : 0 < batchSize
  accumulation_pos : 0 < accumulation
  cpSize_pos : 0 < cpSize
  divides : cpSize ∣ worldSize
deriving DecidableEq

/-- `make_batches`: the batches of a rank, and the cursor behind them. -/
def makeBatches (config : Config) (data : Dataset) (padTokenId : ℤ) (rank cursor : ℕ) :
    Except String (List Batch × ℕ) := do
  let dataSize := config.worldSize / config.cpSize
  let dataRank := rank / config.cpSize
  let batches ← (range config.accumulation).mapM fun micro =>
    let start := cursor + (micro * dataSize + dataRank) * config.batchSize
    let selected := (range config.batchSize).map fun index => data.read (start + index)
    collateExamples selected padTokenId config.cpSize
  return (batches, cursor + config.accumulation * dataSize * config.batchSize)

/-- A checkpoint of a rank; a data position that is no integer is missing. -/
structure Checkpoint where
  config : Config
  step : ℕ
  dataPosition : Option ℤ

/-- The arguments that may change from run to run. -/
structure Schedule where
  steps : ℕ
  saveEvery : ℕ
  noSave : Bool

/-- What a rank has done: the step and the cursor it is at, the batches that its steps have read, and the
checkpoints it has saved. -/
structure Progress where
  step : ℕ
  cursor : ℕ
  consumed : List (ℕ × List Batch)
  saved : List Checkpoint

section Runs

variable (config : Config) (data : Dataset) (padTokenId : ℤ) (rank : ℕ) (schedule : Schedule)
  (works : ℕ → Bool)

/-- `save_checkpoint` of the step and the cursor. -/
def Progress.save (progress : Progress) : Progress :=
  { progress with
    saved := progress.saved ++ [⟨config, progress.step, some (progress.cursor : ℤ)⟩] }

def Progress.finish (progress : Progress) (next : ℕ) : Progress :=
  let moved := { progress with step := progress.step + 1, cursor := next }
  if schedule.noSave = false ∧ schedule.saveEvery ≠ 0 ∧ moved.step % schedule.saveEvery = 0 then
    moved.save config
  else moved

/-- The loop of `train` over the steps that are left; whether it has come to its end. -/
def trainSteps : ℕ → Progress → Progress × Bool
  | 0, progress => (progress, true)
  | left + 1, progress =>
    match makeBatches config data padTokenId rank progress.cursor with
    | .error _ => (progress, false)
    | .ok (batches, next) =>
      let read := { progress with consumed := progress.consumed ++ [(progress.step + 1, batches)] }
      if works (progress.step + 1) then trainSteps left (read.finish config schedule next)
      else (read, false)

/-- The cursor behind some completed steps. -/
def expectedCursor (step : ℕ) : ℕ :=
  step * config.accumulation * config.batchSize * (config.worldSize / config.cpSize)

/-- The step and the cursor that a run starts at. -/
def startOf (resume : Option Checkpoint) : Except String (ℕ × ℕ) :=
  match resume with
  | none => .ok (0, 0)
  | some checkpoint => do
      let _ ← require (checkpoint.config = config) "checkpoint identity differs"
      let _ ← require (checkpoint.dataPosition = some (expectedCursor config checkpoint.step : ℤ))
        "checkpoint data cursor does not match completed SFT steps"
      let _ ← require (schedule.steps = 0 ∨ checkpoint.step ≤ schedule.steps)
        "resume step exceeds the requested total steps"
      return (checkpoint.step, expectedCursor config checkpoint.step)

/-- `train`, as far as it reads and saves; whether it has come to its end. -/
def train (resume : Option Checkpoint) : Except String (Progress × Bool) := do
  let (step, cursor) ← startOf config schedule resume
  let (progress, ended) :=
    trainSteps config data padTokenId rank schedule works (schedule.steps - step) ⟨step, cursor, [], []⟩
  let last := progress.saved.getLast?.map Checkpoint.step
  if ended = true ∧ schedule.noSave = false ∧ step < progress.step ∧ last ≠ some progress.step then
    return (progress.save config, ended)
  else return (progress, ended)

end Runs

/-! ### The positions of a step -/

variable {cursor : ℕ}

section Positions

variable (config : Config)

/-- The groups that read different examples. -/
def Config.dataSize (config : Config) : ℕ := config.worldSize / config.cpSize

def Config.amount (config : Config) : ℕ := config.accumulation * config.dataSize * config.batchSize

/-- The positions that a rank reads in a microbatch. -/
def positions (cursor rank micro : ℕ) : List ℕ :=
  (range config.batchSize).map fun index =>
    cursor + (micro * config.dataSize + rank / config.cpSize) * config.batchSize + index

variable {config}

theorem group_lt {rank : ℕ} (inside : rank < config.worldSize) : rank / config.cpSize < config.dataSize :=
  Nat.div_lt_div_of_lt_of_dvd config.divides inside

variable {position : ℕ}

theorem mem_positions {rank micro : ℕ} :
    position ∈ positions config cursor rank micro ↔ ∃ index < config.batchSize, position
      = cursor + ((micro * config.dataSize + rank / config.cpSize) * config.batchSize + index) := by
  unfold positions
  rw [mem_map]
  constructor
  · rintro ⟨index, mem, rfl⟩
    exact ⟨index, mem_range.mp mem, Nat.add_assoc _ _ _⟩
  · rintro ⟨index, inside, rfl⟩
    exact ⟨index, mem_range.mpr inside, Nat.add_assoc _ _ _⟩

/-- The positions that are read in one step are the next ones. -/
theorem mem_step : (cursor ≤ position ∧ position < cursor + config.amount) ↔
      ∃ micro < config.accumulation, ∃ rank < config.worldSize,
        position ∈ positions config cursor rank micro := by
  constructor
  · rintro ⟨lower, upper⟩
    obtain ⟨offset, rfl⟩ := Nat.exists_eq_add_of_le lower
    have offset_lt : offset < config.accumulation * config.dataSize * config.batchSize :=
      Nat.lt_of_add_lt_add_left upper
    -- The row of the offset is a microbatch of a group, and that of the row the microbatch.
    have row_lt : offset / config.batchSize < config.accumulation * config.dataSize :=
      (Nat.div_lt_iff_lt_mul config.batchSize_pos).mpr offset_lt
    have groups : 0 < config.dataSize := Nat.pos_of_mul_pos_left (Nat.zero_lt_of_lt row_lt)
    have group := Nat.mod_lt (offset / config.batchSize) groups
    refine ⟨offset / config.batchSize / config.dataSize, (Nat.div_lt_iff_lt_mul groups).mpr row_lt,
      offset / config.batchSize % config.dataSize * config.cpSize, ?_, ?_⟩
    · calc offset / config.batchSize % config.dataSize * config.cpSize
          < config.dataSize * config.cpSize := Nat.mul_lt_mul_of_pos_right group config.cpSize_pos
        _ = config.worldSize := Nat.div_mul_cancel config.divides
    · refine mem_positions.mpr ⟨offset % config.batchSize, Nat.mod_lt _ config.batchSize_pos, ?_⟩
      rw [Nat.mul_div_cancel _ config.cpSize_pos, Nat.div_add_mod', Nat.div_add_mod']
  · rintro ⟨micro, below, rank, inside, mem⟩
    obtain ⟨index, small, rfl⟩ := mem_positions.mp mem
    refine ⟨Nat.le_add_right _ _, Nat.add_lt_add_left ?_ _⟩
    have row : micro * config.dataSize + rank / config.cpSize < config.accumulation * config.dataSize :=
      calc micro * config.dataSize + rank / config.cpSize
          < micro * config.dataSize + config.dataSize := Nat.add_lt_add_left (group_lt inside) _
        _ = (micro + 1) * config.dataSize := (Nat.succ_mul _ _).symm
        _ ≤ config.accumulation * config.dataSize := Nat.mul_le_mul_right _ below
    calc (micro * config.dataSize + rank / config.cpSize) * config.batchSize + index
        < (micro * config.dataSize + rank / config.cpSize) * config.batchSize + config.batchSize :=
          Nat.add_lt_add_left small _
      _ = (micro * config.dataSize + rank / config.cpSize + 1) * config.batchSize := (Nat.succ_mul _ _).symm
      _ ≤ config.accumulation * config.dataSize * config.batchSize := Nat.mul_le_mul_right _ row

theorem read_once {rank other micro next : ℕ} (inside : rank < config.worldSize)
    (within : other < config.worldSize) (mem : position ∈ positions config cursor rank micro) :
    position ∈ positions config cursor other next ↔
      next = micro ∧ other / config.cpSize = rank / config.cpSize := by
  obtain ⟨index, small, rfl⟩ := mem_positions.mp mem
  constructor
  · intro again
    obtain ⟨place, low, same⟩ := mem_positions.mp again
    obtain ⟨rows, -⟩ := grid_inj low small (Nat.add_left_cancel same).symm
    exact grid_inj (group_lt within) (group_lt inside) rows
  · rintro ⟨rfl, same⟩
    exact mem_positions.mpr ⟨index, small, by rw [same]⟩

theorem positions_nodup (cursor rank micro : ℕ) : (positions config cursor rank micro).Nodup :=
  List.Nodup.map (fun _ _ same => Nat.add_left_cancel same) nodup_range

end Positions

/-! ### The steps of a run -/

section Steps

variable {config : Config} {data : Dataset} {padTokenId : ℤ} {rank : ℕ} {schedule : Schedule}
  {works : ℕ → Bool}

theorem makeBatches_ok {next : ℕ} {batches : List Batch} :
    makeBatches config data padTokenId rank cursor = .ok (batches, next) ↔
      List.Forall₂ (fun micro batch => collateExamples
        ((positions config cursor rank micro).map data.read) padTokenId config.cpSize = .ok batch)
        (range config.accumulation) batches ∧ next = cursor + config.amount := by
  unfold makeBatches
  dsimp only
  rw [bind_eq_ok]
  have same : ∀ micro, (range config.batchSize).map (fun index => data.read
      (cursor + (micro * (config.worldSize / config.cpSize) + rank / config.cpSize) * config.batchSize + index))
      = (positions config cursor rank micro).map data.read := by
    intro micro
    unfold positions
    rw [map_map]
    rfl
  constructor
  · rintro ⟨made, ran, returned⟩
    cases returned
    refine ⟨(mapM_eq_ok.mp ran).imp fun micro batch collated => ?_, rfl⟩
    rw [← same]
    exact collated
  · rintro ⟨each, rfl⟩
    refine ⟨batches, mapM_eq_ok.mpr (each.imp fun micro batch collated => ?_), rfl⟩
    rw [same]
    exact collated

theorem expectedCursor_succ (config : Config) (step : ℕ) :
    expectedCursor config (step + 1) = expectedCursor config step + config.amount := by
  unfold expectedCursor Config.amount Config.dataSize
  ring

variable (config data padTokenId rank)

/-- The batches of the step behind some completed ones can be made. -/
def Makes (step : ℕ) : Prop :=
  ∃ batches next, makeBatches config data padTokenId rank (expectedCursor config step) = .ok (batches, next)

/-- The batches of the steps behind some completed ones, up to the first that cannot be made. -/
def stepsFrom : ℕ → ℕ → List (ℕ × List Batch)
  | 0, _ => []
  | count + 1, step =>
    match makeBatches config data padTokenId rank (expectedCursor config step) with
    | .error _ => []
    | .ok (batches, _) => (step + 1, batches) :: stepsFrom count (step + 1)

/-- What the loop has done since it was at `before`. -/
structure Follows (before after : Progress) (left : ℕ) : Prop where
  cursor : after.cursor = expectedCursor config after.step
  forward : before.step ≤ after.step
  makes : ∀ step, before.step ≤ step → step < after.step → Makes config data padTokenId rank step
  reads : ∃ read, after.consumed = before.consumed ++ read ∧
    read <+: stepsFrom config data padTokenId rank left before.step
  saves : ∀ checkpoint ∈ after.saved, checkpoint ∈ before.saved ∨
    checkpoint = ⟨config, checkpoint.step, some (expectedCursor config checkpoint.step : ℤ)⟩ ∧
      checkpoint.step ≤ after.step

variable {config data padTokenId rank}

theorem finish_cases (config : Config) (schedule : Schedule) (progress : Progress) (next : ℕ) :
    (progress.finish config schedule next).step = progress.step + 1 ∧
    (progress.finish config schedule next).cursor = next ∧
    (progress.finish config schedule next).consumed = progress.consumed ∧
    ∀ checkpoint ∈ (progress.finish config schedule next).saved, checkpoint ∈ progress.saved ∨
      checkpoint = ⟨config, progress.step + 1, some (next : ℤ)⟩ := by
  unfold Progress.finish
  dsimp only
  split_ifs
  · refine ⟨rfl, rfl, rfl, fun checkpoint mem => ?_⟩
    rcases mem_append.mp mem with before | last
    · exact Or.inl before
    · exact Or.inr (mem_singleton.mp last)
  · exact ⟨rfl, rfl, rfl, fun checkpoint => Or.inl⟩

theorem trainSteps_follows {left : ℕ} {before after : Progress} {ended : Bool}
    (starts : before.cursor = expectedCursor config before.step)
    (ran : trainSteps config data padTokenId rank schedule works left before = (after, ended)) :
    Follows config data padTokenId rank before after left ∧ ((∀ step, works step = true) → after.consumed
        = before.consumed ++ stepsFrom config data padTokenId rank left before.step) := by
  induction left generalizing before with
  | zero =>
    cases ran
    refine ⟨⟨starts, Nat.le_refl _, fun step low high => absurd low (Nat.not_le.mpr high),
      ⟨[], (append_nil _).symm, nil_prefix⟩, fun _ mem => Or.inl mem⟩, fun _ => ?_⟩
    rw [stepsFrom, append_nil]
  | succ left known =>
    unfold trainSteps at ran
    rw [starts] at ran
    cases made : makeBatches config data padTokenId rank (expectedCursor config before.step) with
    | error message =>
      simp only [made] at ran
      cases ran
      refine ⟨⟨starts, Nat.le_refl _, fun step low high => absurd low (Nat.not_le.mpr high),
        ⟨[], (append_nil _).symm, nil_prefix⟩, fun _ mem => Or.inl mem⟩, fun _ => ?_⟩
      rw [stepsFrom, made, append_nil]
    | ok result =>
      obtain ⟨batches, next⟩ := result
      have plan : stepsFrom config data padTokenId rank (left + 1) before.step
          = (before.step + 1, batches) :: stepsFrom config data padTokenId rank left (before.step + 1) := by
        rw [stepsFrom, made]
      rw [plan]
      simp only [made] at ran
      by_cases updated : works (before.step + 1) = true
      · rw [if_pos updated] at ran
        obtain ⟨step, cursor, consumed, saved⟩ := finish_cases config schedule { before with
          cursor := expectedCursor config before.step
          consumed := before.consumed ++ [(before.step + 1, batches)] } next
        have moves : next = expectedCursor config (before.step + 1) := by
          rw [(makeBatches_ok.mp made).2, expectedCursor_succ]
        obtain ⟨later, whole⟩ := known (by rw [cursor, step, moves]) ran
        rw [step, consumed] at whole
        have forward : before.step + 1 ≤ after.step := le_of_eq_of_le step.symm later.forward
        obtain ⟨read, same, begins⟩ := later.reads
        rw [step] at begins
        rw [consumed] at same
        refine ⟨⟨later.cursor, ?_, fun done low high => ?_, ?_, fun checkpoint mem => ?_⟩, fun all => ?_⟩
        · exact Nat.le_of_succ_le forward
        · rcases Nat.eq_or_lt_of_le low with rfl | below
          · exact ⟨batches, next, made⟩
          · exact later.makes done (by rw [step]; exact below) high
        · refine ⟨(before.step + 1, batches) :: read, ?_, ?_⟩
          · rw [same, append_assoc]
            rfl
          · rw [plan]
            exact (prefix_cons_inj _).mpr begins
        · rcases later.saves checkpoint mem with earlier | here
          · rcases saved checkpoint earlier with first | rfl
            · exact Or.inl first
            · rw [moves]
              exact Or.inr ⟨rfl, forward⟩
          · exact Or.inr here
        · rw [whole all, append_assoc]
          rfl
      · rw [if_neg updated] at ran
        cases ran
        refine ⟨⟨rfl, Nat.le_refl _, fun step low high => absurd low (Nat.not_le.mpr high),
          ⟨[(before.step + 1, batches)], rfl, ?_⟩, fun _ mem => Or.inl mem⟩, fun all => ?_⟩
        · rw [plan]
          exact (prefix_cons_inj _).mpr nil_prefix
        · exact absurd (all _) updated

variable {start : ℕ}

theorem stepsFrom_drop {done left : ℕ}
    (makes : ∀ step, start ≤ step → step < start + done → Makes config data padTokenId rank step) :
    (stepsFrom config data padTokenId rank (done + left) start).drop done
      = stepsFrom config data padTokenId rank left (start + done) := by
  induction done generalizing start with
  | zero => rw [drop_zero, Nat.zero_add, Nat.add_zero]
  | succ done known =>
    obtain ⟨batches, next, made⟩ := makes start (Nat.le_refl _) (by omega)
    rw [Nat.succ_add, stepsFrom, made]
    show (stepsFrom config data padTokenId rank (done + left) (start + 1)).drop done = _
    rw [known fun step low high => makes step (by omega) (by omega), Nat.add_assoc, Nat.add_comm 1]

/-! ### Runs and resumed runs -/

variable {resume : Option Checkpoint}

theorem startOf_ok (started : startOf config schedule resume = .ok (start, cursor)) :
    cursor = expectedCursor config start ∧ start = (resume.map Checkpoint.step).getD 0 := by
  cases resume with
  | none =>
    cases started
    refine ⟨?_, rfl⟩
    unfold expectedCursor
    rw [Nat.zero_mul, Nat.zero_mul, Nat.zero_mul]
  | some checkpoint =>
    obtain ⟨_, -, started⟩ := bind_eq_ok.mp started
    obtain ⟨_, -, started⟩ := bind_eq_ok.mp started
    obtain ⟨_, -, started⟩ := bind_eq_ok.mp started
    cases started
    exact ⟨rfl, rfl⟩

theorem train_follows {after : Progress} {ended : Bool}
    (ran : train config data padTokenId rank schedule works resume = .ok (after, ended)) :
    ∃ start, start = (resume.map Checkpoint.step).getD 0 ∧
      Follows config data padTokenId rank ⟨start, expectedCursor config start, [], []⟩ after
        (schedule.steps - start) ∧
      ((∀ step, works step = true) →
        after.consumed = stepsFrom config data padTokenId rank (schedule.steps - start) start) := by
  obtain ⟨⟨start, cursor⟩, started, ran⟩ := bind_eq_ok.mp ran
  obtain ⟨rfl, same⟩ := startOf_ok started
  refine ⟨start, same, ?_⟩
  dsimp only at ran
  cases looped : trainSteps config data padTokenId rank schedule works (schedule.steps - start)
    ⟨start, expectedCursor config start, [], []⟩ with
  | mk progress finished =>
    obtain ⟨follows, whole⟩ := trainSteps_follows rfl looped
    rw [looped] at ran
    split_ifs at ran
    · cases ran
      refine ⟨⟨follows.cursor, follows.forward, follows.makes, follows.reads, fun checkpoint mem => ?_⟩,
        whole⟩
      rcases mem_append.mp mem with before | last
      · exact follows.saves checkpoint before
      · rw [mem_singleton.mp last, follows.cursor]
        exact Or.inr ⟨rfl, Nat.le_refl _⟩
    · cases ran
      exact ⟨follows, whole⟩

variable (config data padTokenId rank)

/-- A checkpoint that some run has saved, which may have resumed from another one. -/
inductive Saved : Checkpoint → Prop
  | run {schedule : Schedule} {works : ℕ → Bool} {resume : Option Checkpoint} {progress : Progress}
      {ended : Bool} {checkpoint : Checkpoint}
      (ran : train config data padTokenId rank schedule works resume = .ok (progress, ended))
      (earlier : ∀ source, resume = some source → Saved source)
      (member : checkpoint ∈ progress.saved) : Saved checkpoint

variable {config data padTokenId rank}
variable {checkpoint : Checkpoint}

theorem Saved.sound (saved : Saved config data padTokenId rank checkpoint) :
    checkpoint = ⟨config, checkpoint.step, some (expectedCursor config checkpoint.step : ℤ)⟩ ∧
      ∀ step < checkpoint.step, Makes config data padTokenId rank step := by
  induction saved with
  | run ran earlier mem known =>
    obtain ⟨start, same, follows, -⟩ := train_follows ran
    rcases follows.saves _ mem with none_ | ⟨here, before⟩
    · cases none_
    · refine ⟨here, fun step below => ?_⟩
      by_cases low : start ≤ step
      · exact follows.makes step low (Nat.lt_of_lt_of_le below before)
      · rename_i resume _ _ _
        cases resume with
        | none =>
          rw [same] at low
          exact absurd (Nat.zero_le step) low
        | some source =>
          rw [same] at low
          exact (known source rfl).2 step (Nat.lt_of_not_le low)

theorem train_of_start (started : startOf config schedule resume = .ok (start, cursor))
    (works : ℕ → Bool) :
    ∃ progress ended,
      train config data padTokenId rank schedule works resume = .ok (progress, ended) := by
  unfold train
  rw [started]
  dsimp only [bind, Except.bind]
  split_ifs
  all_goals exact ⟨_, _, rfl⟩

theorem Saved.starts (saved : Saved config data padTokenId rank checkpoint)
    (enough : schedule.steps = 0 ∨ checkpoint.step ≤ schedule.steps) :
    startOf config schedule (some checkpoint)
      = .ok (checkpoint.step, expectedCursor config checkpoint.step) := by
  rw [saved.sound.1]
  refine ok_bind (require_ok rfl) (ok_bind (require_ok rfl) ?_)
  exact ok_bind (require_ok enough) rfl

theorem expectedCursor_eq (config : Config) (step : ℕ) :
    expectedCursor config step = step * config.amount := by
  unfold expectedCursor Config.amount Config.dataSize
  ring

/-- The batches of a resumed run are those of an uninterrupted one behind the steps of the checkpoint. -/
theorem resumed_batches (saved : Saved config data padTokenId rank checkpoint)
    (enough : schedule.steps = 0 ∨ checkpoint.step ≤ schedule.steps) (works : ℕ → Bool) :
    ∃ resumed ended fresh whole,
      train config data padTokenId rank schedule works (some checkpoint) = .ok (resumed, ended) ∧
      train config data padTokenId rank schedule (fun _ => true) none = .ok (fresh, whole) ∧
      resumed.consumed <+: fresh.consumed.drop checkpoint.step ∧
      ((∀ step, works step = true) → resumed.consumed = fresh.consumed.drop checkpoint.step) := by
  have starts : startOf config schedule none = .ok (0, 0) := rfl
  obtain ⟨resumed, ended, ran⟩ : ∃ progress ended, train config data padTokenId rank schedule works
      (some checkpoint) = .ok (progress, ended) := train_of_start (saved.starts enough) works
  obtain ⟨fresh, whole, began⟩ : ∃ progress ended, train config data padTokenId rank schedule
      (fun _ => true) none = .ok (progress, ended) := train_of_start starts _
  obtain ⟨_, rfl, -, first⟩ := train_follows began
  obtain ⟨_, rfl, follows, second⟩ := train_follows ran
  refine ⟨resumed, ended, fresh, whole, ran, began, ?_⟩
  have plan : fresh.consumed.drop checkpoint.step = stepsFrom config data padTokenId rank
      (schedule.steps - checkpoint.step) checkpoint.step := by
    rw [first fun _ => rfl]
    rcases enough with none_ | enough
    · rw [none_, Nat.zero_sub, Nat.zero_sub]
      exact drop_nil
    · have makes := saved.sound.2
      calc (stepsFrom config data padTokenId rank (schedule.steps - 0) 0).drop checkpoint.step
          = (stepsFrom config data padTokenId rank
              (checkpoint.step + (schedule.steps - checkpoint.step)) 0).drop checkpoint.step := by
            rw [Nat.add_sub_cancel' enough, Nat.sub_zero]
        _ = stepsFrom config data padTokenId rank (schedule.steps - checkpoint.step)
              (0 + checkpoint.step) :=
            stepsFrom_drop fun step _ high => makes step (lt_of_lt_of_eq high (Nat.zero_add _))
        _ = _ := by rw [Nat.zero_add]
  rw [plan]
  obtain ⟨read, same, begins⟩ := follows.reads
  refine ⟨?_, second⟩
  rw [same]
  exact begins

end Steps

/-! ### Coverage -/

/-- In one step each of the next positions, and no other, is read: once, in one microbatch, by the ranks
of one context-parallel group. Behind some steps the cursor of a run is that many amounts; and a run that
resumes from a saved checkpoint reads what an uninterrupted run reads behind its steps. -/
theorem sft_batches (config : Config) (data : Dataset) (padTokenId : ℤ) :
    (∀ cursor position, (cursor ≤ position ∧ position < cursor + config.amount) ↔
      ∃ micro < config.accumulation, ∃ rank < config.worldSize,
        position ∈ positions config cursor rank micro) ∧
    (∀ cursor position rank micro, rank < config.worldSize → position ∈ positions config cursor rank micro →
      ∀ other < config.worldSize, ∀ next, position ∈ positions config cursor other next ↔
        next = micro ∧ other / config.cpSize = rank / config.cpSize) ∧
    (∀ cursor rank micro, (positions config cursor rank micro).Nodup) ∧
    (∀ rank cursor batches next, makeBatches config data padTokenId rank cursor = .ok (batches, next) →
      List.Forall₂ (fun micro batch => collateExamples
        ((positions config cursor rank micro).map data.read) padTokenId config.cpSize = .ok batch)
        (range config.accumulation) batches ∧ next = cursor + config.amount) ∧
    (∀ rank schedule works progress ended,
      train config data padTokenId rank schedule works none = .ok (progress, ended) →
        progress.cursor = progress.step * config.amount) ∧
    ∀ rank checkpoint, Saved config data padTokenId rank checkpoint → ∀ schedule works,
      schedule.steps = 0 ∨ checkpoint.step ≤ schedule.steps → ∃ resumed ended fresh whole,
          train config data padTokenId rank schedule works (some checkpoint) = .ok (resumed, ended) ∧
          train config data padTokenId rank schedule (fun _ => true) none = .ok (fresh, whole) ∧
          resumed.consumed <+: fresh.consumed.drop checkpoint.step ∧
          ((∀ step, works step = true) → resumed.consumed = fresh.consumed.drop checkpoint.step) := by
  refine ⟨fun cursor position => mem_step, fun cursor position rank micro inside member other within next =>
    read_once inside within member, positions_nodup, fun rank cursor batches next => makeBatches_ok.mp,
    fun rank schedule works progress ended ran => ?_, fun rank checkpoint saved schedule works enough =>
    resumed_batches saved enough works⟩
  obtain ⟨start, -, follows, -⟩ := train_follows ran
  rw [follows.cursor, expectedCursor_eq]

/-- Two groups of two ranks, with two microbatches of two examples. -/
theorem two_dvd_four : 2 ∣ 4 := by decide

def twoGroups : Config := ⟨2, 2, 2, 4, Nat.two_pos, Nat.two_pos, Nat.two_pos, two_dvd_four⟩

def threeExamples : Dataset := ⟨[⟨[1], [1], [1]⟩, ⟨[2], [2], [1]⟩, ⟨[3], [3], [1]⟩], by decide⟩

/-- The third position of the second step is read by the second group in its first microbatch; and a run of
three steps that resumes behind the first one reads two. -/
theorem sft_batches_groups :
    (∀ other < 4, ∀ next, 10 ∈ positions twoGroups 8 other next ↔ next = 0 ∧ other / 2 = 1) ∧
    ∃ checkpoint, Saved twoGroups threeExamples 0 1 checkpoint ∧ checkpoint.step = 1 ∧
      ∃ resumed ended, train twoGroups threeExamples 0 1 ⟨3, 1, false⟩ (fun _ => true) (some checkpoint)
        = .ok (resumed, ended) ∧ resumed.consumed.length = 2 := by
  obtain ⟨-, once, -, -, -, resumes⟩ := sft_batches twoGroups threeExamples 0
  refine ⟨once 8 10 2 0 (by decide) (by decide), ?_⟩
  have executed : (train twoGroups threeExamples 0 1 ⟨3, 1, false⟩ (fun _ => true) none).toOption.map
      (fun ran => (ran.1.saved.map Checkpoint.step, ran.1.consumed.length)) = some ([1, 2, 3], 3) := by
    decide +kernel
  obtain ⟨⟨progress, whole⟩, found, same⟩ := Option.map_eq_some_iff.mp executed
  obtain ⟨saves, reads⟩ := Prod.mk.inj same
  have ran : train twoGroups threeExamples 0 1 ⟨3, 1, false⟩ (fun _ => true) none = .ok (progress, whole) := by
    cases trained : train twoGroups threeExamples 0 1 ⟨3, 1, false⟩ (fun _ => true) none with
    | error message => rw [trained] at found; cases found
    | ok result => rw [trained] at found; exact congrArg _ (Option.some.inj found)
  obtain ⟨checkpoint, member, first⟩ : ∃ checkpoint ∈ progress.saved, checkpoint.step = 1 := by
    refine mem_map.mp ?_
    rw [saves]
    exact mem_cons_self
  have saved : Saved twoGroups threeExamples 0 1 checkpoint := .run ran (fun _ none_ => nomatch none_) member
  obtain ⟨resumed, ended, fresh, _, began, again, -, all⟩ := resumes 1 checkpoint saved ⟨3, 1, false⟩
    (fun _ => true) (Or.inr (by rw [first]; decide))
  rw [ran] at again
  cases again
  refine ⟨checkpoint, saved, first, resumed, ended, began, ?_⟩
  rw [all fun _ => rfl, length_drop, reads, first]

end TinyDSV41.Sft
