/-
**The inbox of the CPU relay is read in the order of the names.**

`claim` goes through the files of `inbox` by name. A job that is expired is moved aside and finished; any
other job that may be claimed is moved and handed out; a file that may not be claimed raises, and stays.
A later call comes to the same file again. What sorts before such a file is therefore handed out as if it
were not there, and what sorts behind it waits for it, unless it is claimed by its identity.

* `Admissible` — a file that `claim` may move, at a reading of the clock.
* `claimFrom_absent`, `claimFrom_refused`, `claimFrom_takes`, `claimFrom_expired` — one file.
* `claimFrom_clear`, `claimFrom_blocked` — a list of files with nothing inadmissible, or something, ahead
  of a job.
* `Turns` — how calls of `claim` go on between other requests.
* `inbox_order` — which jobs are handed out at last, and which wait.
-/

import TinyDSV41.Lib.Cells
import TinyDSV41.Relay.SpoolAccounting
import Mathlib.Data.String.Basic
import Mathlib.Tactic.Linarith

namespace TinyDSV41.Relay

open List Lib AList Cells Storage Option
open Script (ensures_bind ensures_done ensures_ite ensures_lift ensures_perform ensures_raise ensures_read run_bind_ok run_lift_bind run_observe_bind)

section Files

variable {Payload : Type} {rules : JobRules Payload} {spool before after : Spool Payload} {job : Job Payload}
  {name : String} {now later deadline : ℚ}

/-! ### Names -/

def Ahead (first second : String) : Prop := fileName first < fileName second

theorem fileName_injective : Function.Injective fileName := fun _ _ same => (String.append_left_inj _).mp same

theorem Ahead.ne {first second : String} (ahead : Ahead first second) : first ≠ second := by
  rintro rfl
  exact lt_irrefl _ ahead

theorem inOrder_ahead {names : List String} (distinct : names.Nodup) : (inOrder names).Pairwise Ahead := by
  have sorted : (inOrder names).Pairwise fun first second => fileName first ≤ fileName second := by
    have pairs : (inOrder names).Pairwise fun first second =>
        decide (fileName first ≤ fileName second) = true := pairwise_mergeSort
      (fun _ _ _ low high => decide_eq_true ((of_decide_eq_true low).trans (of_decide_eq_true high)))
      (fun first second => by
        rcases le_total (fileName first) (fileName second) with low | high
        · rw [decide_eq_true low, Bool.true_or]
        · rw [decide_eq_true high, Bool.or_true]) names
    exact pairs.imp of_decide_eq_true
  have apart : (inOrder names).Nodup := (mergeSort_perm names _).nodup_iff.mpr distinct
  exact sorted.imp₂ (fun _ _ low differs => lt_of_le_of_ne low fun same => differs (fileName_injective same)) apart

/-! ### What may be claimed -/

/-- A job that `claim` may move, as far as a reading of the clock shows. -/
structure Offered (rules : JobRules Payload) (now : ℚ) (spool : Spool Payload) (job : Job Payload)
    (deadline : ℚ) : Prop where
  queued : spool.inbox.lookup job.id.text = some (.job job)
  read : readJob rules now none (some (.job job)) = .ok (job, deadline)
  unclaimed : job.id.text ∉ spool.inflight
  unfinished : job.id.text ∉ spool.outbox

/-- A file that `claim` may move: a readable job under its own name, neither claimed nor finished, whose
deadline is not too far ahead. -/
def Admissible (rules : JobRules Payload) (now : ℚ) (spool : Spool Payload) (name : String) : Prop :=
  ∃ job deadline, job.id.text = name ∧ Offered rules now spool job deadline

theorem readJob_ok {file : Option (File Payload)} : readJob rules now none file = .ok (job, deadline) ↔
      file = some (.job job) ∧ job.deadlineUnix = some deadline ∧ 0 < deadline ∧ deadline ≤ now + 3600 ∧
        checkPayload rules job = .ok () := by
  unfold readJob
  cases file with
  | none => simp
  | some file =>
    cases file with
    | refused message => simp
    | job found =>
      cases known : found.deadlineUnix with
      | none =>
        simp only [known, reduceCtorEq, false_iff]
        rintro ⟨same, there, -⟩
        cases same
        rw [known] at there
        cases there
      | some limit =>
        simp only [known]
        split_ifs with bad
        · simp only [false_iff]
          rintro ⟨same, there, positive, near, -⟩
          cases same
          rw [known] at there
          cases there
          rcases bad with low | far | none_
          · exact absurd positive (not_lt.mpr low)
          · exact absurd near (not_le.mpr far)
          · cases none_
        · obtain ⟨positive, bad⟩ := not_or.mp bad
          obtain ⟨near, -⟩ := not_or.mp bad
          constructor
          · intro checked
            cases payload : checkPayload rules found with rw [payload] at checked
            | error error =>
              cases checked
            | ok _ =>
              cases checked
              exact ⟨rfl, known, not_le.mp positive, not_lt.mp near, payload⟩
          · rintro ⟨same, there, -, -, payload⟩
            cases same
            rw [known] at there
            cases there
            rw [payload]
            rfl

theorem Offered.mono (offered : Offered rules now spool job deadline) (order : now ≤ later) :
    Offered rules later spool job deadline := by
  obtain ⟨same, known, positive, near, payload⟩ := readJob_ok.mp offered.read
  exact ⟨offered.queued, readJob_ok.mpr ⟨same, known, positive, by linarith, payload⟩, offered.unclaimed,
    offered.unfinished⟩

theorem Admissible.mono (admissible : Admissible rules now spool name) (order : now ≤ later) :
    Admissible rules later spool name := by
  obtain ⟨job, deadline, own, offered⟩ := admissible
  exact ⟨job, deadline, own, offered.mono order⟩

/-! ### What the relay leaves alone -/

theorem evolves_queued (path : (spoolFiles Payload).Evolves before after) (still : name ∈ after.inbox) :
    after.inbox.lookup name = before.inbox.lookup name := by
  refine path.keeps (fun spool => name ∈ spool.inbox → spool.inbox.lookup name = before.inbox.lookup name)
    (fun spool op legal same => ?_) (fun _ => rfl) still
  change name ∈ (spool.apply op).inbox → (spool.apply op).inbox.lookup name = _
  rcases apply_cases legal with ⟨other, file, -, -, -, moved⟩ | ⟨other, result, -, -, -, moved⟩
  · rw [moved]
    intro mem
    obtain ⟨differs, queued⟩ := mem_erase.mp mem
    exact (lookup_erase_ne differs).trans (same queued)
  · rw [moved]
    exact same

theorem evolves_unclaimed (path : (spoolFiles Payload).Evolves before after) (unclaimed : name ∉ before.inflight)
    (still : name ∈ after.inbox) :
    name ∉ after.inflight ∧ (name ∈ after.outbox → name ∈ before.outbox) := by
  refine path.keeps (fun spool => name ∈ spool.inbox →
    name ∉ spool.inflight ∧ (name ∈ spool.outbox → name ∈ before.outbox))
    (fun spool op legal same => ?_) (fun _ => ⟨unclaimed, id⟩) still
  change name ∈ (spool.apply op).inbox →
    name ∉ (spool.apply op).inflight ∧ (name ∈ (spool.apply op).outbox → _)
  rcases apply_cases legal with ⟨other, file, -, -, -, moved⟩ | ⟨other, result, -, claimed, -, moved⟩
  · rw [moved]
    intro mem
    obtain ⟨differs, queued⟩ := mem_erase.mp mem
    obtain ⟨free, open_⟩ := same queued
    exact ⟨fun claimed => ((mem_insert _).mp claimed).elim differs free, open_⟩
  · rw [moved]
    intro queued
    obtain ⟨free, open_⟩ := same queued
    refine ⟨free, fun finished => ((mem_insert _).mp finished).elim (fun own => ?_) open_⟩
    rw [own] at free
    exact absurd claimed free

theorem Offered.evolves (offered : Offered rules now before job deadline)
    (path : (spoolFiles Payload).Evolves before after) (still : job.id.text ∈ after.inbox) :
    Offered rules now after job deadline := by
  obtain ⟨unclaimed, finished⟩ := evolves_unclaimed path offered.unclaimed still
  exact ⟨(evolves_queued path still).trans offered.queued, offered.read, unclaimed,
    fun ended => offered.unfinished (finished ended)⟩

theorem Admissible.evolves (admissible : Admissible rules now before name)
    (path : (spoolFiles Payload).Evolves before after) (still : name ∈ after.inbox) :
    Admissible rules now after name := by
  obtain ⟨job, deadline, rfl, offered⟩ := admissible
  exact ⟨job, deadline, rfl, offered.evolves path still⟩

theorem Admissible.earlier (admissible : Admissible rules now after name)
    (path : (spoolFiles Payload).Evolves before after) : Admissible rules now before name := by
  obtain ⟨job, deadline, rfl, offered⟩ := admissible
  have still : job.id.text ∈ after.inbox := mem_of_lookup offered.queued
  refine ⟨job, deadline, rfl, (evolves_queued path still).symm.trans offered.queued, offered.read,
    fun claimed => offered.unclaimed (evolves_inflight path claimed), fun ended => ?_⟩
  obtain ⟨result, found⟩ := isSome_iff_exists.mp (lookup_isSome.mpr ended)
  exact offered.unfinished (mem_of_lookup (evolves_result path found))

end Files

/-! ### One file -/

section Loop

variable {Payload : Type} {rules : JobRules Payload} {disk : Spool Payload} {job : Job Payload}
  {clock : ℕ → ℚ} {name : String} {rest : List String} {now deadline : ℚ}

def left (disk : Spool Payload) {Value : Type} (script : SpoolScript Payload Value) : Spool Payload :=
  (spoolFiles Payload).replay disk (script.run disk).1

theorem apply_move {file : File Payload} (found : disk.inbox.lookup name = some file) :
    disk.apply (.move name) = { disk with
      inbox := disk.inbox.erase name
      inflight := disk.inflight.insert name file } := by
  simp [Spool.apply, found]

theorem claimFrom_absent (gone : name ∉ disk.inbox) :
    (claimFrom rules clock (name :: rest)).run disk = (claimFrom rules (nextFile clock) rest).run disk := by
  rw [claimFrom, run_observe_bind, if_pos gone]

theorem claimFrom_refused (queued : name ∈ disk.inbox) (bad : ¬ Admissible rules (clock 0) disk name) :
    ∃ error, (claimFrom rules clock (name :: rest)).run disk = ([], .error error) := by
  rw [claimFrom, run_observe_bind, if_neg (not_not.mpr queued), run_lift_bind]
  cases read : readJob rules (clock 0) none (disk.inbox.lookup name) with
  | error error => exact ⟨error, rfl⟩
  | ok found =>
    obtain ⟨job, deadline⟩ := found
    obtain ⟨same, -⟩ := readJob_ok.mp read
    by_cases misnamed : name ≠ job.id.text
    · exact ⟨_, congrFun (if_pos misnamed) disk⟩
    · by_cases taken : name ∈ disk.inflight ∨ name ∈ disk.outbox
      · exact ⟨_, congrFun ((if_neg misnamed).trans (if_pos taken)) disk⟩
      · obtain rfl : name = job.id.text := not_not.mp misnamed
        obtain ⟨unclaimed, unfinished⟩ := not_or.mp taken
        exact absurd ⟨job, deadline, rfl, same, same ▸ read, unclaimed, unfinished⟩ bad

theorem claimFrom_takes (offered : Offered rules (clock 0) disk job deadline) (alive : clock 1 < deadline) :
    (claimFrom rules clock (job.id.text :: rest)).run disk = ([.move job.id.text], .ok (some job)) := by
  rw [claimFrom, run_observe_bind, if_neg (not_not.mpr (mem_of_lookup offered.queued)),
    run_lift_bind, offered.queued, offered.read]
  dsimp only
  rw [if_neg (not_not.mpr rfl), if_neg (not_or.mpr ⟨offered.unclaimed, offered.unfinished⟩),
    Script.run_perform_bind, if_neg (not_le.mpr alive)]
  rfl

def expiredResult (id : Id) : JobResult := ⟨id, .error "CPU deadline expired before dispatch; no replay" none⟩

def asideOf (disk : Spool Payload) (id : Id) : Spool Payload :=
  (disk.apply (.move id.text)).apply (.finish id.text (expiredResult id))

theorem claimFrom_expired (offered : Offered rules (clock 0) disk job deadline) (late : deadline ≤ clock 1) :
    (claimFrom rules clock (job.id.text :: rest)).run disk
      = (.move job.id.text :: .finish job.id.text (expiredResult job.id)
            :: ((claimFrom rules (nextFile clock) rest).run (asideOf disk job.id)).1,
          ((claimFrom rules (nextFile clock) rest).run (asideOf disk job.id)).2) := by
  have open_ : job.id.text ∉ (disk.apply (.move job.id.text)).outbox := by
    rw [apply_move offered.queued]
    exact offered.unfinished
  rw [claimFrom, run_observe_bind, if_neg (not_not.mpr (mem_of_lookup offered.queued)),
    run_lift_bind, offered.queued, offered.read]
  dsimp only
  rw [if_neg (not_not.mpr rfl), if_neg (not_or.mpr ⟨offered.unclaimed, offered.unfinished⟩),
    Script.run_perform_bind, if_pos late]
  have fails : (failClaim job.id "CPU deadline expired before dispatch; no replay").run
      (disk.apply (.move job.id.text)) = ([.finish job.id.text (expiredResult job.id)], .ok ()) := by
    unfold failClaim
    rw [run_observe_bind, if_neg open_]
    rfl
  have both : (failClaim job.id "CPU deadline expired before dispatch; no replay"
        >>= fun _ => claimFrom rules (nextFile clock) rest).run (disk.apply (.move job.id.text))
      = (.finish job.id.text (expiredResult job.id)
            :: ((claimFrom rules (nextFile clock) rest).run (asideOf disk job.id)).1,
          ((claimFrom rules (nextFile clock) rest).run (asideOf disk job.id)).2) := by
    rw [run_bind_ok (congrArg Prod.snd fails), fails]
    rfl
  exact congrArg (fun run => (SpoolOp.move job.id.text :: run.1, run.2)) both

theorem asideOf_evolves (offered : Offered rules now disk job deadline) :
    (spoolFiles Payload).Legal disk [.move job.id.text, .finish job.id.text (expiredResult job.id)] ∧
      job.id.text ∉ (asideOf disk job.id).inbox ∧
      ∀ name ∈ disk.inbox, name ≠ job.id.text → name ∈ (asideOf disk job.id).inbox := by
  have moved := apply_move offered.queued
  refine ⟨⟨⟨mem_of_lookup offered.queued, offered.unclaimed⟩, ⟨?_, ?_⟩, trivial⟩, ?_, ?_⟩
  · change job.id.text ∈ (disk.apply (.move job.id.text)).inflight
    rw [moved]
    exact (mem_insert _).mpr (Or.inl rfl)
  · change job.id.text ∉ (disk.apply (.move job.id.text)).outbox
    rw [moved]
    exact offered.unfinished
  · unfold asideOf
    rw [moved]
    exact fun mem => (mem_erase.mp mem).1 rfl
  · intro name queued differs
    unfold asideOf
    rw [moved]
    exact mem_erase.mpr ⟨differs, queued⟩

theorem claimFrom_cons (rules : JobRules Payload) (disk : Spool Payload) (clock : ℕ → ℚ) (name : String)
    (rest : List String) :
    (name ∉ disk.inbox ∧
      (claimFrom rules clock (name :: rest)).run disk = (claimFrom rules (nextFile clock) rest).run disk) ∨
    (name ∈ disk.inbox ∧ ¬ Admissible rules (clock 0) disk name ∧
      ∃ error, (claimFrom rules clock (name :: rest)).run disk = ([], .error error)) ∨
    ∃ job deadline, name = job.id.text ∧ Offered rules (clock 0) disk job deadline ∧ (clock 1 < deadline ∧
        (claimFrom rules clock (name :: rest)).run disk = ([.move name], .ok (some job)) ∨
      deadline ≤ clock 1 ∧ (claimFrom rules clock (name :: rest)).run disk
          = (.move name :: .finish name (expiredResult job.id)
              :: ((claimFrom rules (nextFile clock) rest).run (asideOf disk job.id)).1,
            ((claimFrom rules (nextFile clock) rest).run (asideOf disk job.id)).2)) := by
  by_cases queued : name ∈ disk.inbox
  · by_cases admissible : Admissible rules (clock 0) disk name
    · obtain ⟨job, deadline, rfl, offered⟩ := admissible
      refine Or.inr (Or.inr ⟨job, deadline, rfl, offered, ?_⟩)
      by_cases alive : clock 1 < deadline
      · exact Or.inl ⟨alive, claimFrom_takes offered alive⟩
      · exact Or.inr ⟨not_lt.mp alive, claimFrom_expired offered (not_lt.mp alive)⟩
    · exact Or.inr (Or.inl ⟨queued, admissible, claimFrom_refused queued admissible⟩)
  · exact Or.inl ⟨queued, claimFrom_absent queued⟩

/-! ### A list of files -/

theorem claimFrom_evolves (rules : JobRules Payload) (clock : ℕ → ℚ) (paths : List String) (disk : Spool Payload) :
    (spoolFiles Payload).Legal disk ((claimFrom rules clock paths).run disk).1 := by
  induction paths generalizing clock disk with
  | nil => trivial
  | cons name rest known =>
    rcases claimFrom_cons rules disk clock name rest with ⟨-, same⟩ | ⟨-, -, _, same⟩ |
      ⟨job, deadline, rfl, offered, ⟨-, same⟩ | ⟨-, same⟩⟩
    · rw [same]
      exact known _ _
    · rw [same]
      trivial
    · rw [same]
      exact ⟨(asideOf_evolves offered).1.1, trivial⟩
    · rw [same]
      exact (asideOf_evolves offered).1.append (known _ _)

variable {paths : List String}

/-- A job that is not expired is handed out, or left alone. -/
theorem claimFrom_own (offered : Offered rules now disk job deadline)
    (alive : ∀ reading, clock reading < deadline) :
    job.id.text ∈ (left disk (claimFrom rules clock paths)).inbox ∨
      ((claimFrom rules clock paths).run disk).2 = .ok (some job) := by
  induction paths generalizing clock disk with
  | nil => exact Or.inl (mem_of_lookup offered.queued)
  | cons name rest known =>
    have here : job.id.text ∈ disk.inbox := mem_of_lookup offered.queued
    unfold left
    rcases claimFrom_cons rules disk clock name rest with ⟨-, same⟩ | ⟨-, -, _, same⟩ |
      ⟨other, limit, rfl, offered', ⟨-, same⟩ | ⟨late, same⟩⟩
    · rw [same]
      exact known offered fun reading => alive _
    · rw [same]
      exact Or.inl here
    · rw [same]
      by_cases own : job.id.text = other.id.text
      · have file := offered.queued
        rw [own, offered'.queued] at file
        cases file
        exact Or.inr rfl
      · refine Or.inl ?_
        change job.id.text ∈ (disk.apply (.move other.id.text)).inbox
        rw [apply_move offered'.queued]
        exact mem_erase.mpr ⟨own, here⟩
    · rw [same]
      obtain ⟨legal, -, others⟩ := asideOf_evolves offered'
      have differs : job.id.text ≠ other.id.text := by
        intro own
        have file := offered.queued
        rw [own, offered'.queued] at file
        cases file
        obtain ⟨-, first, -⟩ := readJob_ok.mp offered.read
        obtain ⟨-, second, -⟩ := readJob_ok.mp offered'.read
        cases first.symm.trans second
        exact absurd (alive 1) (not_lt.mpr late)
      have still := others _ here differs
      exact known (offered.evolves (evolves_replay legal) still) fun reading => alive _

/-- With nothing inadmissible ahead of a job, it is handed out, or a job ahead of it is. -/
theorem claimFrom_clear (rules : JobRules Payload) (clock : ℕ → ℚ) (sorted : paths.Pairwise Ahead)
    (there : job.id.text ∈ paths) (offered : Offered rules now disk job deadline)
    (clear : ∀ other ∈ paths, other ∈ disk.inbox → Ahead other job.id.text → Admissible rules now disk
      other) (timely : ∀ reading, now ≤ clock reading ∧ clock reading < deadline) :
    ∃ taken, ((claimFrom rules clock paths).run disk).2 = .ok (some taken) ∧
      (taken = job ∨ Ahead taken.id.text job.id.text ∧ taken.id.text ∈ disk.inbox ∧
        taken.id.text ∉ (left disk (claimFrom rules clock paths)).inbox) := by
  induction paths generalizing clock disk with
  | nil => cases there
  | cons name rest known =>
    obtain ⟨first, ordered⟩ := pairwise_cons.mp sorted
    obtain ⟨here, later⟩ := forall_mem_cons.mp clear
    have timely' : ∀ reading, now ≤ nextFile clock reading ∧ nextFile clock reading < deadline :=
      fun reading => timely _
    -- The job itself, or a file ahead of it.
    have place : name = job.id.text ∨ job.id.text ∈ rest ∧ Ahead name job.id.text :=
      (mem_cons.mp there).imp Eq.symm fun mem => ⟨mem, first _ mem⟩
    unfold left
    rcases claimFrom_cons rules disk clock name rest with ⟨gone, same⟩ | ⟨queued, bad, -⟩ |
      ⟨other, limit, rfl, offered', ⟨-, same⟩ | ⟨late, same⟩⟩
    · rw [same]
      rcases place with rfl | ⟨mem, -⟩
      · exact absurd (mem_of_lookup offered.queued) gone
      · exact known _ ordered mem offered later timely'
    · refine absurd ?_ bad
      rcases place with rfl | ⟨-, ahead⟩
      · exact ⟨job, deadline, rfl, offered.mono (timely 0).1⟩
      · exact (here queued ahead).mono (timely 0).1
    · rw [same]
      rcases place with own | ⟨-, ahead⟩
      · have file := offered.queued
        rw [← own, offered'.queued] at file
        cases file
        exact ⟨_, rfl, Or.inl rfl⟩
      · refine ⟨other, rfl, Or.inr ⟨ahead, mem_of_lookup offered'.queued, ?_⟩⟩
        change other.id.text ∉ (disk.apply (.move other.id.text)).inbox
        rw [apply_move offered'.queued]
        exact fun mem => (mem_erase.mp mem).1 rfl
    · rw [same]
      rcases place with own | ⟨mem, ahead⟩
      · have file := offered.queued
        rw [← own, offered'.queued] at file
        cases file
        obtain ⟨-, first, -⟩ := readJob_ok.mp offered.read
        obtain ⟨-, second, -⟩ := readJob_ok.mp offered'.read
        cases first.symm.trans second
        exact absurd (timely 1).2 (not_lt.mpr late)
      · obtain ⟨legal, -, others⟩ := asideOf_evolves offered'
        have path := evolves_replay legal
        have fewer : ∀ file, file ∈ (asideOf disk other.id).inbox → file ∈ disk.inbox := fun file still =>
          mem_of_lookup_eq (evolves_queued path still) still
        have still := others _ (mem_of_lookup offered.queued) ahead.ne.symm
        obtain ⟨taken, ended, outcome⟩ := known _ ordered mem (offered.evolves path still)
          (fun file mem queued ahead => (later file mem (fewer file queued) ahead).evolves path queued)
          timely'
        refine ⟨taken, ended, outcome.imp id ?_⟩
        rintro ⟨ahead', queued, gone⟩
        exact ⟨ahead', fewer _ queued, gone⟩

/-- What is behind an inadmissible file is left alone, and only a job ahead of it is handed out. -/
theorem claimFrom_blocked (rules : JobRules Payload) (clock : ℕ → ℚ) {bad : String}
    (sorted : paths.Pairwise Ahead) (there : bad ∈ paths) (queued : bad ∈ disk.inbox)
    (inadmissible : ∀ reading, ¬ Admissible rules (clock reading) disk bad) :
    (∀ other ∈ disk.inbox, ¬ Ahead other bad → other ∈ (left disk (claimFrom rules clock paths)).inbox) ∧
      ((∃ error, ((claimFrom rules clock paths).run disk).2 = .error error) ∨
        ∃ taken, ((claimFrom rules clock paths).run disk).2 = .ok (some taken) ∧ Ahead taken.id.text bad) := by
  induction paths generalizing clock disk with
  | nil => cases there
  | cons name rest known =>
    obtain ⟨first, ordered⟩ := pairwise_cons.mp sorted
    have place : name = bad ∨ bad ∈ rest ∧ Ahead name bad :=
      (mem_cons.mp there).imp Eq.symm fun mem => ⟨mem, first _ mem⟩
    unfold left
    rcases claimFrom_cons rules disk clock name rest with ⟨gone, same⟩ | ⟨-, -, error, same⟩ |
      ⟨other, limit, rfl, offered, ⟨-, same⟩ | ⟨late, same⟩⟩
    all_goals rw [same]
    · rcases place with rfl | ⟨mem, -⟩
      · exact absurd queued gone
      · exact known _ ordered mem queued fun reading => inadmissible _
    · exact ⟨fun _ still _ => still, Or.inl ⟨error, rfl⟩⟩
    · rcases place with rfl | ⟨-, ahead⟩
      · exact absurd ⟨other, limit, rfl, offered⟩ (inadmissible 0)
      · refine ⟨fun file still behind => ?_, Or.inr ⟨other, rfl, ahead⟩⟩
        change file ∈ (disk.apply (.move other.id.text)).inbox
        rw [apply_move offered.queued]
        exact mem_erase.mpr ⟨fun own => behind (own ▸ ahead), still⟩
    · rcases place with rfl | ⟨mem, ahead⟩
      · exact absurd ⟨other, limit, rfl, offered⟩ (inadmissible 0)
      · obtain ⟨legal, -, others⟩ := asideOf_evolves offered
        have path := evolves_replay legal
        obtain ⟨stay, outcome⟩ := known _ ordered mem (others _ queued ahead.ne.symm)
          fun reading admissible => inadmissible _ (admissible.earlier path)
        refine ⟨fun file still behind => ?_, outcome⟩
        exact stay file (others _ still fun own => behind (own ▸ ahead)) behind

end Loop

/-! ### The handlers -/

variable {request : CpuRequest}
variable {id : Id}

section Handlers

variable {Payload : Type} {rules : JobRules Payload} {clock : ℕ → ℚ} {listing names : List String}
  {inbox : AList fun _ : String => File Payload}

/-- In the course of a handler that moves nothing. -/
structure Unmoved (inbox : AList fun _ : String => File Payload) (names : List String) (disk : Spool Payload) :
    Prop where
  inbox : disk.inbox = inbox
  claimed : ∀ name ∈ names, name ∈ disk.inflight

theorem failClaim_unmoved {message : String} :
    Script.Ensures (fun disk : Spool Payload => id.text ∈ disk.inflight ∧ Unmoved inbox names disk)
      (failClaim id message) (fun _ => Unmoved inbox names) (Unmoved inbox names) := by
  refine ensures_read fun spool ⟨claimed, unmoved⟩ => ensures_ite (fun _ => ?_) fun open_ => ?_
  · exact ensures_done fun _ same => same ▸ unmoved
  · refine ensures_perform ?_ ?_
    · rintro disk rfl
      exact ⟨claimed, open_⟩
    · rintro disk rfl
      exact ⟨unmoved.inbox, unmoved.claimed⟩

theorem unfinishedClaims_unmoved (listed : ∀ name ∈ listing, name ∈ names) :
    Script.Ensures (Unmoved inbox names) (unfinishedClaims rules clock listing) (fun _ => Unmoved inbox names)
      (Unmoved inbox names) := by
  induction listing generalizing clock with
  | nil => exact ensures_done fun _ => id
  | cons name rest known =>
    obtain ⟨here, later⟩ := forall_mem_cons.mp listed
    refine ensures_read fun spool unmoved => ?_
    have stays : ∀ disk, disk = spool → Unmoved inbox names disk := fun disk same => same ▸ unmoved
    refine ensures_ite (fun _ => (known later).weaken stays (fun _ _ => id) fun _ => id) fun _ => ?_
    refine ensures_bind (fun _ disk => disk = spool) (ensures_lift (fun _ same _ _ => same) stays) ?_
    rintro ⟨job, deadline⟩
    refine ensures_ite (fun _ => ensures_raise stays) fun named => ?_
    obtain rfl : name = job.id.text := not_not.mp named
    refine ensures_ite (fun _ => ?_) fun _ => ?_
    · refine ensures_bind (fun _ => Unmoved inbox names) ?_ fun _ => known later
      refine failClaim_unmoved.given fun disk same => ?_
      exact ⟨(stays disk same).claimed _ here, stays disk same⟩
    · refine ensures_bind (fun _ => Unmoved inbox names)
        ((known later).weaken stays (fun _ _ => id) fun _ => id) fun _ => ensures_done fun _ => id

theorem result_unmoved {value : JobResult} (listed : ∀ name ∈ listing, name ∈ names) :
    Script.Ensures (Unmoved inbox names) (result rules clock listing value) (fun _ => Unmoved inbox names)
      (Unmoved inbox names) := by
  refine ensures_ite (fun _ => ensures_raise fun _ => id) fun _ => ?_
  refine ensures_bind _ (unfinishedClaims_unmoved listed) fun _ => ensures_read fun spool unmoved => ?_
  have stays : ∀ disk, disk = spool → Unmoved inbox names disk := fun disk same => same ▸ unmoved
  refine ensures_bind (fun _ disk => disk = spool) (ensures_lift (fun _ same _ _ => same) stays)
    fun _ => ?_
  cases found : spool.outbox.lookup value.id.text with
  | some committed =>
    exact ensures_ite (fun _ => ensures_raise stays) fun _ => ensures_done stays
  | none =>
    refine ensures_ite (fun _ => ensures_raise stays) fun claimed => ?_
    refine ensures_bind (fun _ => Unmoved inbox names) (ensures_perform ?_ ?_) fun _ =>
      ensures_done fun _ => id
    · rintro disk rfl
      exact ⟨not_not.mp claimed, lookup_eq_none.mp found⟩
    · rintro disk rfl
      exact ⟨unmoved.inbox, unmoved.claimed⟩

/-- The other files of the inbox are where they were. -/
def Others (start : Spool Payload) (id : Id) (disk : Spool Payload) : Prop :=
  ∀ name ∈ start.inbox, name ≠ id.text → name ∈ disk.inbox

theorem failClaim_others {message : String} {start disk : Spool Payload}
    (claimed : id.text ∈ disk.inflight) (others : Others start id disk) :
    Script.Ensures (· = disk) (failClaim id message) (fun _ => Others start id) (Others start id) := by
  have ensured : Script.Ensures (fun spool => id.text ∈ spool.inflight ∧ Unmoved disk.inbox [] spool)
      (failClaim id message) (fun _ => Unmoved disk.inbox []) (Unmoved disk.inbox []) := failClaim_unmoved
  have same : ∀ spool : Spool Payload, Unmoved disk.inbox [] spool → Others start id spool := by
    intro spool unmoved name queued differs
    rw [unmoved.inbox]
    exact others name queued differs
  refine ensured.weaken ?_ (fun _ => same) same
  rintro spool rfl
  exact ⟨claimed, rfl, by simp⟩

theorem cancelClaim_others (start : Spool Payload) :
    Script.Ensures (· = start) (cancelClaim rules clock id) (fun _ => Others start id) (Others start id) := by
  have stays : ∀ disk, disk = start → Others start id disk := by
    rintro disk rfl name queued -
    exact queued
  refine ensures_read ?_
  rintro spool rfl
  refine ensures_ite (fun claimed => failClaim_others claimed (stays _ rfl)) fun free => ?_
  refine ensures_ite (fun queued => ?_) fun _ => ensures_raise stays
  refine ensures_bind (fun _ disk => disk = spool) (ensures_lift (fun _ same _ _ => same) stays) ?_
  rintro ⟨job, -⟩
  refine ensures_ite (fun _ => ensures_raise stays) fun _ => ?_
  refine ensures_bind (fun _ disk => disk = spool.apply (.move id.text)) (ensures_perform ?_ ?_)
    fun _ => ?_
  · rintro disk rfl
    exact ⟨queued, free⟩
  · rintro disk rfl
    rfl
  obtain ⟨file, found⟩ := isSome_iff_exists.mp (lookup_isSome.mpr queued)
  have moved := apply_move found
  refine failClaim_others ?_ fun name there differs => ?_
  · rw [moved]
    exact (mem_insert _).mpr (Or.inl rfl)
  · rw [moved]
    exact mem_erase.mpr ⟨differs, there⟩

/-- The files that `claim` goes through. -/
def pathsOf (requested : Option Id) (spool : Spool Payload) : List String :=
  match requested with
  | some id => [id.text]
  | none => inOrder spool.inbox.keys

/-- The clock, behind the reading of the claimed jobs. -/
def behind (clock : ℕ → ℚ) (listing : List String) : ℕ → ℚ := fun reading => clock (reading + 2 * listing.length)

/-- The claimed jobs can be read, and there is room for one more. -/
def Free (rules : JobRules Payload) (limit : ℕ) (clock : ℕ → ℚ) (listing : List String) (disk : Spool Payload) :
    Prop :=
  ∃ active, ((unfinishedClaims rules clock listing).run disk).2 = .ok active ∧ active.length < limit

variable {requested : Option Id}

/-- `claim` with room goes through its files. -/
theorem claim_free {limit : ℕ} {disk middle : Spool Payload} (free : Free rules limit clock listing disk)
    (reads : middle = left disk (unfinishedClaims rules clock listing)) :
    (claim rules limit clock listing requested).run disk
      = (((unfinishedClaims rules clock listing).run disk).1
          ++ ((claimFrom rules (behind clock listing) (pathsOf requested middle)).run middle).1,
        ((claimFrom rules (behind clock listing) (pathsOf requested middle)).run middle).2) := by
  obtain ⟨active, read, room⟩ := free
  subst reads
  unfold claim
  rw [run_bind_ok read, if_neg (not_le.mpr room), run_observe_bind]
  rfl

/-- `claim` without room, or with a claimed job that cannot be read, hands out nothing. -/
theorem claim_full {limit : ℕ} (requested : Option Id) {disk : Spool Payload}
    (full : ¬ Free rules limit clock listing disk) :
    ((claim rules limit clock listing requested).run disk).1 = ((unfinishedClaims rules clock listing).run disk).1 ∧
      ∀ job, ((claim rules limit clock listing requested).run disk).2 ≠ .ok (some job) := by
  unfold claim
  cases read : ((unfinishedClaims rules clock listing).run disk).2 with
  | error error =>
    rw [Script.run_bind_error read]
    exact ⟨rfl, fun _ => nofun⟩
  | ok active =>
    have many : limit ≤ active.length := not_lt.mp fun room => full ⟨active, read, room⟩
    rw [run_bind_ok read, if_pos many]
    exact ⟨List.append_nil _, fun _ => nofun⟩

theorem unfinishedClaims_leaves (rules : JobRules Payload) (clock : ℕ → ℚ) {disk : Spool Payload}
    (listed : listing.Perm disk.inflight.keys) :
    (spoolFiles Payload).Legal disk ((unfinishedClaims rules clock listing).run disk).1 ∧
      (left disk (unfinishedClaims rules clock listing)).inbox = disk.inbox := by
  have ensured : Script.Ensures (Unmoved disk.inbox listing) (unfinishedClaims rules clock listing)
      (fun _ => Unmoved disk.inbox listing) (Unmoved disk.inbox listing) := unfinishedClaims_unmoved fun _ => id
  obtain ⟨legal, ends⟩ := ensured disk ⟨rfl, fun name => listed.mem_iff.mp⟩
  refine ⟨legal, ?_⟩
  cases read : ((unfinishedClaims rules clock listing).run disk).2 with
  | error | ok =>
    rw [read] at ends
    exact ends.inbox

theorem mem_inOrder {name : String} : name ∈ inOrder inbox.keys ↔ name ∈ inbox :=
  (mergeSort_perm inbox.keys _).mem_iff

variable {limit : ℕ} {disk : Spool Payload} {job : Job Payload} {now deadline : ℚ}

def Clear (rules : JobRules Payload) (now : ℚ) (spool : Spool Payload) (name : String) : Prop :=
  ∀ other ∈ spool.inbox, Ahead other name → Admissible rules now spool other

theorem Clear.evolves {before after : Spool Payload} {name : String} (clear : Clear rules now before name)
    (path : (spoolFiles Payload).Evolves before after) : Clear rules now after name := by
  intro other queued ahead
  have here : other ∈ before.inbox := mem_of_lookup_eq (evolves_queued path queued) queued
  exact (clear other here ahead).evolves path queued

theorem claim_legal (listed : listing.Perm disk.inflight.keys) :
    (spoolFiles Payload).Legal disk ((claim rules limit clock listing requested).run disk).1 := by
  obtain ⟨legal, -⟩ := unfinishedClaims_leaves rules clock listed
  by_cases free : Free rules limit clock listing disk
  · rw [claim_free free rfl]
    exact legal.append (claimFrom_evolves _ _ _ _)
  · rw [(claim_full _ free).1]
    exact legal

theorem claim_own (rules : JobRules Payload) (limit : ℕ) (requested : Option Id)
    (listed : listing.Perm disk.inflight.keys)
    (offered : Offered rules now disk job deadline) (alive : ∀ reading, clock reading < deadline) :
    job.id.text ∈ (left disk (claim rules limit clock listing requested)).inbox ∨
      ((claim rules limit clock listing requested).run disk).2 = .ok (some job) := by
  obtain ⟨legal, same⟩ := unfinishedClaims_leaves rules clock listed
  have here : job.id.text ∈ disk.inbox := mem_of_lookup offered.queued
  unfold left
  by_cases free : Free rules limit clock listing disk
  · rw [claim_free free rfl, replay_append]
    refine claimFrom_own (offered.evolves (evolves_replay legal) ?_) fun reading => alive _
    change job.id.text ∈ (left disk (unfinishedClaims rules clock listing)).inbox
    rw [same]
    exact here
  · rw [(claim_full _ free).1]
    refine Or.inl ?_
    change job.id.text ∈ (left disk (unfinishedClaims rules clock listing)).inbox
    rw [same]
    exact here

theorem claim_keeps (listed : listing.Perm disk.inflight.keys)
    (offered : Offered rules now disk job deadline) (alive : ∀ reading, clock reading < deadline) :
    Script.Ensures (· = disk) (claim rules limit clock listing requested)
      (fun handed after => job.id.text ∈ after.inbox ∨ handed = some job)
      (fun after => job.id.text ∈ after.inbox) := by
  rintro start rfl
  refine ⟨claim_legal listed, ?_⟩
  have outcome := claim_own rules limit requested listed offered alive
  cases ended : ((claim rules limit clock listing requested).run start).2 with
  | error error =>
    rw [ended] at outcome
    exact outcome.resolve_right nofun
  | ok handed =>
    rw [ended] at outcome
    exact outcome.imp id Except.ok.inj

theorem claim_clear (listed : listing.Perm disk.inflight.keys) (free : Free rules limit clock listing disk)
    (offered : Offered rules now disk job deadline) (clear : Clear rules now disk job.id.text)
    (timely : ∀ reading, now ≤ clock reading ∧ clock reading < deadline) :
    ∃ taken, ((claim rules limit clock listing none).run disk).2 = .ok (some taken) ∧
      (taken = job ∨ Ahead taken.id.text job.id.text ∧ taken.id.text ∈ disk.inbox ∧
        taken.id.text ∉ (left disk (claim rules limit clock listing none)).inbox) := by
  obtain ⟨legal, same⟩ := unfinishedClaims_leaves rules clock listed
  have path := evolves_replay legal
  have here : job.id.text ∈ (left disk (unfinishedClaims rules clock listing)).inbox := by
    rw [same]
    exact mem_of_lookup offered.queued
  obtain ⟨taken, ended, outcome⟩ := claimFrom_clear rules _
    (inOrder_ahead (left disk (unfinishedClaims rules clock listing)).inbox.nodupKeys) (mem_inOrder.mpr here)
    (offered.evolves path here) (fun other _ => clear.evolves path other)
    fun reading => timely (reading + 2 * listing.length)
  unfold left
  rw [claim_free free rfl, replay_append]
  refine ⟨taken, ended, outcome.imp id ?_⟩
  rintro ⟨ahead, queued, gone⟩
  exact ⟨ahead, mem_of_lookup_eq (evolves_queued path queued) queued, gone⟩

theorem claim_blocked (limit : ℕ) {bad : String} (listed : listing.Perm disk.inflight.keys) (queued : bad ∈ disk.inbox)
    (inadmissible : ∀ reading, ¬ Admissible rules (clock reading) disk bad) :
    (∀ other ∈ disk.inbox, ¬ Ahead other bad →
        other ∈ (left disk (claim rules limit clock listing none)).inbox) ∧
      ∀ taken, ((claim rules limit clock listing none).run disk).2 = .ok (some taken) → Ahead taken.id.text bad := by
  obtain ⟨legal, same⟩ := unfinishedClaims_leaves rules clock listed
  have stays : ∀ other ∈ disk.inbox, other ∈ (left disk (unfinishedClaims rules clock listing)).inbox := by
    rw [same]
    exact fun _ => id
  unfold left
  by_cases free : Free rules limit clock listing disk
  · obtain ⟨behind_, outcome⟩ := claimFrom_blocked rules (behind clock listing)
      (inOrder_ahead (left disk (unfinishedClaims rules clock listing)).inbox.nodupKeys)
      (mem_inOrder.mpr (stays bad queued)) (stays bad queued)
      fun reading admissible => inadmissible _ (admissible.earlier (evolves_replay legal))
    rw [claim_free free rfl, replay_append]
    refine ⟨fun other there => behind_ other (stays other there), fun taken ended => ?_⟩
    rcases outcome with ⟨error, raised⟩ | ⟨first, found, ahead⟩
    · cases raised.symm.trans ended
    · cases found.symm.trans ended
      exact ahead
  · obtain ⟨same_, nothing⟩ := claim_full none free
    rw [same_]
    exact ⟨fun other there _ => stays other there, fun taken ended => absurd ended (nothing taken)⟩

theorem claim_requested (listed : listing.Perm disk.inflight.keys) (free : Free rules limit clock listing disk)
    (offered : Offered rules now disk job deadline)
    (timely : ∀ reading, now ≤ clock reading ∧ clock reading < deadline) :
    ((claim rules limit clock listing (some job.id)).run disk).2 = .ok (some job) := by
  obtain ⟨legal, same⟩ := unfinishedClaims_leaves rules clock listed
  have here : job.id.text ∈ (left disk (unfinishedClaims rules clock listing)).inbox := by
    rw [same]
    exact mem_of_lookup offered.queued
  have there := (offered.evolves (evolves_replay legal) here).mono (timely (0 + 2 * listing.length)).1
  have takes : (claimFrom rules (behind clock listing) [job.id.text]).run
      (left disk (unfinishedClaims rules clock listing)) = ([.move job.id.text], .ok (some job)) :=
    claimFrom_takes there (timely (1 + 2 * listing.length)).2
  rw [claim_free free rfl]
  exact congrArg Prod.snd takes

/-- A request other than its cancellation hands a job out, or leaves it alone. -/
theorem serve_own {settings : RelaySettings} (listed : listing.Perm disk.inflight.keys)
    (offered : Offered rules now disk job deadline) (alive : ∀ reading, clock reading < deadline)
    (other : request ≠ .cancel job.id) :
    Script.Ensures (· = disk) (serve rules settings clock listing request)
      (fun handed after => job.id.text ∈ after.inbox ∨ handed = some job)
      (fun after => job.id.text ∈ after.inbox) := by
  have here : job.id.text ∈ disk.inbox := mem_of_lookup offered.queued
  have unmoved : ∀ after, Unmoved disk.inbox listing after → job.id.text ∈ after.inbox := by
    intro after same
    rw [same.inbox]
    exact here
  have begins : ∀ after, after = disk → Unmoved disk.inbox listing after := by
    rintro after rfl
    exact ⟨rfl, fun name => listed.mem_iff.mp⟩
  cases request with
  | claim requested => exact claim_keeps listed offered alive
  | result value =>
    refine ensures_bind (fun _ => Unmoved disk.inbox listing) ?_ fun _ =>
      ensures_done fun after same => Or.inl (unmoved after same)
    exact (result_unmoved fun _ => id).weaken begins (fun _ _ => id) unmoved
  | status =>
    refine ensures_bind (fun _ => Unmoved disk.inbox listing) ?_ fun _ =>
      ensures_done fun after same => Or.inl (unmoved after same)
    exact (unfinishedClaims_unmoved fun _ => id).weaken begins (fun _ _ => id) unmoved
  | cancel requestId =>
    have differs : job.id.text ≠ requestId.text := by
      intro same
      obtain rfl := Id.text_injective same
      exact other rfl
    refine ensures_bind (fun _ => Others disk requestId) ?_ fun _ =>
      ensures_done fun after others => Or.inl (others _ here differs)
    exact (cancelClaim_others disk).weaken (fun _ => id) (fun _ _ => id) fun after others => others _ here differs

end Handlers

/-! ### Calls of `claim` between other requests -/

section Runs

variable {Payload : Type} {rules : JobRules Payload} {settings : RelaySettings} {job : Job Payload}
  {name : String} {now deadline : ℚ} {clock : ℕ → ℚ} {listing : List String} {start cpu next : Cpu Payload}

def rank (spool : Spool Payload) (name : String) : ℕ :=
  (spool.inbox.keys.filter fun other => fileName other < fileName name).length

theorem mem_ahead {spool : Spool Payload} {other : String} :
    (other ∈ spool.inbox.keys.filter fun other => fileName other < fileName name)
      ↔ other ∈ spool.inbox ∧ Ahead other name := by
  rw [mem_filter, decide_eq_true_eq]
  exact Iff.rfl

section

variable {before after : Spool Payload}
  (fewer : ∀ other ∈ after.inbox, Ahead other name → other ∈ before.inbox)
include fewer

theorem rank_le : rank after name ≤ rank before name :=
  (subperm_of_subset (after.inbox.nodupKeys.filter _) fun other mem => by
    obtain ⟨queued, ahead⟩ := mem_ahead.mp mem
    exact mem_ahead.mpr ⟨fewer other queued ahead, ahead⟩).length_le

theorem rank_lt {taken : String} (there : taken ∈ before.inbox) (ahead : Ahead taken name)
    (gone : taken ∉ after.inbox) : rank after name + 1 ≤ rank before name := by
  have fresh : taken ∉ after.inbox.keys.filter fun other => fileName other < fileName name :=
    fun mem => gone (mem_ahead.mp mem).1
  have apart := nodup_cons.mpr ⟨fresh, after.inbox.nodupKeys.filter _⟩
  refine (subperm_of_subset apart fun other mem => ?_).length_le
  rcases mem_cons.mp mem with rfl | mem
  · exact mem_ahead.mpr ⟨there, ahead⟩
  · obtain ⟨queued, before_⟩ := mem_ahead.mp mem
    exact mem_ahead.mpr ⟨fewer other queued before_, before_⟩

end

/-- What may happen between two calls: files come in behind the job, and any request but its cancellation
is served while the job is not expired. -/
def Harmless (job : Job Payload) (now deadline : ℚ) : CpuAction Payload → Prop
  | .submit name _ => Ahead job.id.text name
  | .run (.request request) _ clock =>
    request ≠ .cancel job.id ∧ ∀ reading, now ≤ clock reading ∧ clock reading < deadline
  | _ => False

/-- Runs, by the number of calls of `claim` with free capacity. -/
inductive Turns (rules : JobRules Payload) (settings : RelaySettings) (job : Job Payload) (now deadline : ℚ)
    (start : Cpu Payload) : ℕ → Cpu Payload → Prop
  | start : Turns rules settings job now deadline start 0 start
  | claim {count : ℕ} {cpu next : Cpu Payload} {clock : ℕ → ℚ} {listing : List String} :
      Turns rules settings job now deadline start count cpu →
      Free rules settings.maxInflight clock listing cpu.spool →
      (∀ reading, now ≤ clock reading ∧ clock reading < deadline) →
      cpu.step rules (.run (.request (.claim none)) listing clock) = some next →
      Turns rules settings job now deadline start (count + 1) next
  | other {count : ℕ} {cpu next : Cpu Payload} {action : CpuAction Payload} :
      Turns rules settings job now deadline start count cpu →
      Harmless job now deadline action →
      cpu.step rules action = some next →
      Turns rules settings job now deadline start count next

theorem request_step (live : cpu.process = some settings)
    (stepped : cpu.step rules (.run (.request request) listing clock) = some next) :
    listing.Perm cpu.spool.inflight.keys ∧ next.process = some settings ∧
      next.spool = left cpu.spool (serve rules settings clock listing request) ∧
      next.handed = cpu.handed
        ++ (((serve rules settings clock listing request).run cpu.spool).2.toOption.join.map (·.id)).toList := by
  obtain ⟨effect, same, rfl⟩ := map_eq_some_iff.mp stepped
  rw [Cpu.effect, live, bind_some] at same
  split_ifs at same with listed
  cases same
  exact ⟨listed, rfl, rfl, rfl⟩

/-- The job is handed out since the start, or it waits with nothing inadmissible ahead of it. -/
def Waits (rules : JobRules Payload) (settings : RelaySettings) (job : Job Payload) (now deadline : ℚ)
    (start : Cpu Payload) (count : ℕ) (cpu : Cpu Payload) : Prop :=
  cpu.process = some settings ∧ ∃ handed, cpu.handed = start.handed ++ handed ∧ (job.id ∈ handed ∨
      Offered rules now cpu.spool job deadline ∧ Clear rules now cpu.spool job.id.text ∧
        rank cpu.spool job.id.text + count ≤ rank start.spool job.id.text)

theorem evolves_ahead {before after : Spool Payload} (path : (spoolFiles Payload).Evolves before after) :
    ∀ other ∈ after.inbox, Ahead other name → other ∈ before.inbox :=
  fun _ queued _ => mem_of_lookup_eq (evolves_queued path queued) queued

theorem offered_submit {spool : Spool Payload} {file : File Payload} (differs : job.id.text ≠ name)
    (offered : Offered rules now spool job deadline) :
    Offered rules now { spool with inbox := spool.inbox.insert name file } job deadline :=
  ⟨(lookup_insert_ne differs).trans offered.queued, offered.read, offered.unclaimed, offered.unfinished⟩

section

variable {count : ℕ} (waits : Waits rules settings job now deadline start count cpu)
include waits

theorem waits_submit {file : File Payload} (later : Ahead job.id.text name)
    (stepped : cpu.step rules (.submit name file) = some next) :
    Waits rules settings job now deadline start count next := by
  obtain ⟨live, handed, same, outcome⟩ := waits
  simp only [Cpu.step] at stepped
  split_ifs at stepped
  cases stepped
  refine ⟨live, handed, same, outcome.imp id ?_⟩
  rintro ⟨offered, clear, bound⟩
  have behind_ : ∀ other, Ahead other job.id.text → other ≠ name := by
    rintro other ahead rfl
    exact lt_asymm ahead later
  have before : ∀ other ∈ cpu.spool.inbox.insert name file, Ahead other job.id.text → other ∈ cpu.spool.inbox :=
    fun other mem ahead => ((mem_insert _).mp mem).resolve_left (behind_ other ahead)
  refine ⟨offered_submit later.ne offered, fun other mem ahead => ?_, le_trans (Nat.add_le_add_right ?_ _) bound⟩
  · obtain ⟨found, limit, rfl, given⟩ := clear other (before other mem ahead) ahead
    exact ⟨found, limit, rfl, offered_submit (behind_ _ ahead) given⟩
  · exact rank_le before

theorem waits_request (other : request ≠ .cancel job.id)
    (timely : ∀ reading, now ≤ clock reading ∧ clock reading < deadline)
    (stepped : cpu.step rules (.run (.request request) listing clock) = some next) :
    Waits rules settings job now deadline start count next := by
  obtain ⟨live, handed, same, outcome⟩ := waits
  obtain ⟨listed, live', spool, given⟩ := request_step live stepped
  refine ⟨live', _, by rw [given, same, append_assoc], ?_⟩
  rcases outcome with before | ⟨offered, clear, bound⟩
  · exact Or.inl (mem_append_left _ before)
  obtain ⟨legal, ends⟩ := serve_own listed offered (fun reading => (timely reading).2) other cpu.spool rfl
  have path := evolves_replay legal
  have stays : job.id.text ∈ next.spool.inbox → Offered rules now next.spool job deadline ∧
      Clear rules now next.spool job.id.text ∧
        rank next.spool job.id.text + count ≤ rank start.spool job.id.text := by
    rw [spool]
    intro still
    exact ⟨offered.evolves path still, clear.evolves path,
      le_trans (Nat.add_le_add_right (rank_le (evolves_ahead path)) _) bound⟩
  cases served : ((serve rules settings clock listing request).run cpu.spool).2 with
  | error error =>
    rw [served] at ends
    exact Or.inr (stays (spool ▸ ends))
  | ok value =>
    rw [served] at ends
    rcases ends with still | rfl
    · exact Or.inr (stays (spool ▸ still))
    · exact Or.inl (mem_append_right _ (mem_singleton.mpr rfl))

/-- A call of `claim` with free capacity hands the job out, or one ahead of it. -/
theorem waits_claim (free : Free rules settings.maxInflight clock listing cpu.spool)
    (timely : ∀ reading, now ≤ clock reading ∧ clock reading < deadline)
    (stepped : cpu.step rules (.run (.request (.claim none)) listing clock) = some next) :
    Waits rules settings job now deadline start (count + 1) next := by
  obtain ⟨live, handed, same, outcome⟩ := waits
  obtain ⟨listed, live', spool, given⟩ := request_step live stepped
  refine ⟨live', _, by rw [given, same, append_assoc], ?_⟩
  rcases outcome with before | ⟨offered, clear, bound⟩
  · exact Or.inl (mem_append_left _ before)
  obtain ⟨taken, ended, which⟩ := claim_clear listed free offered clear timely
  have served : ((serve rules settings clock listing (.claim none)).run cpu.spool).2 = .ok (some taken) := ended
  rw [served]
  rcases which with rfl | ⟨ahead, there, gone⟩
  · exact Or.inl (mem_append_right _ (mem_singleton.mpr rfl))
  have path : (spoolFiles Payload).Evolves cpu.spool next.spool := by
    rw [spool]
    exact evolves_replay (claim_legal listed)
  have still : job.id.text ∈ next.spool.inbox := by
    have own := claim_own rules settings.maxInflight none listed offered fun reading => (timely reading).2
    rw [spool]
    refine own.resolve_right fun found => ?_
    cases ended.symm.trans found
    exact lt_irrefl _ ahead
  have fewer : rank next.spool job.id.text + 1 ≤ rank cpu.spool job.id.text :=
    rank_lt (evolves_ahead path) there ahead (spool ▸ gone)
  exact Or.inr ⟨offered.evolves path still, clear.evolves path, by omega⟩

end

theorem waits_run {count : ℕ} (live : start.process = some settings)
    (offered : Offered rules now start.spool job deadline) (clear : Clear rules now start.spool job.id.text)
    (run : Turns rules settings job now deadline start count cpu) :
    Waits rules settings job now deadline start count cpu := by
  induction run with
  | start => exact ⟨live, [], (append_nil _).symm, Or.inr ⟨offered, clear, le_rfl⟩⟩
  | claim _ free timely stepped known => exact waits_claim known free timely stepped
  | @other _ _ _ action _ harmless stepped known =>
    cases action with
    | submit name file => exact waits_submit known harmless stepped
    | run step listing clock =>
      cases step with
      | boot _ => exact harmless.elim
      | request request => exact waits_request known harmless.1 harmless.2 stepped
    | stop _ _ _ _ => exact harmless.elim

/-- Calls of `claim` that find a file inadmissible. -/
def Calls (rules : JobRules Payload) (bad : String) (start : Cpu Payload) (_ : Cpu Payload) :
    CpuAction Payload → Prop
  | .run (.request (.claim none)) _ clock => ∀ reading, ¬ Admissible rules (clock reading) start.spool bad
  | _ => False

/-- They leave it and what is behind it in place, and hand out what is ahead of it only. -/
theorem calls_blocked {bad : String} (live : start.process = some settings) (queued : bad ∈ start.spool.inbox)
    (path : (cpuSystem rules).Leads (Calls rules bad start) start cpu) :
    (∀ other ∈ start.spool.inbox, ¬ Ahead other bad → other ∈ cpu.spool.inbox) ∧
      ∃ handed, cpu.handed = start.handed ++ handed ∧ ∀ id ∈ handed, Ahead id.text bad := by
  have both := path.preserves
    (fun state => state.process = some settings ∧ (spoolFiles Payload).Evolves start.spool state.spool ∧
      (∀ other ∈ start.spool.inbox, ¬ Ahead other bad → other ∈ state.spool.inbox) ∧
      ∃ handed, state.handed = start.handed ++ handed ∧ ∀ id ∈ handed, Ahead id.text bad)
    (fun before action after called stepped ⟨live, path, stays, handed, same, each⟩ => by
      match action, called with
      | .run (.request (.claim none)) listing clock, inadmissible =>
        obtain ⟨listed, live', spool, given⟩ := request_step live stepped
        have here := stays bad queued (lt_irrefl _)
        obtain ⟨behind_, ahead⟩ := claim_blocked settings.maxInflight listed here
          fun reading admissible => inadmissible reading (admissible.earlier path)
        refine ⟨live', ?_, fun other there order => ?_, _, by rw [given, same, append_assoc], ?_⟩
        · rw [spool]
          exact path.trans (evolves_replay (claim_legal listed))
        · rw [spool]
          exact behind_ other (stays other there order) order
        · refine forall_mem_append.mpr ⟨each, fun id mem => ?_⟩
          obtain ⟨taken, found, rfl⟩ := map_eq_some_iff.mp (mem_toList.mp mem)
          refine ahead taken (ok_of_toOption ?_)
          cases served : ((serve rules settings clock listing (.claim none)).run before.spool).2 with
          | error error =>
            rw [served] at found
            cases found
          | ok value =>
            rw [served] at found
            cases found
            exact congrArg Except.toOption served)
    ⟨live, Storage.Evolves.refl _, fun _ there _ => there, [], (append_nil _).symm, by simp⟩
  exact both.2.2

/-- A job that may be claimed, in an inbox of any content, while it is not expired. With nothing inadmissible
ahead of it, it is handed out by as many calls of `claim` with free capacity as there are files ahead of it,
and one more, whatever is behind it and whatever else is requested in between; by its identity it is handed
out at once. With an inadmissible file ahead of it, calls of `claim` leave this file and the job in place, and
hand out only what is ahead of the file. -/
theorem inbox_order (rules : JobRules Payload) (settings : RelaySettings) (start : Cpu Payload)
    (job : Job Payload) (now deadline : ℚ) (live : start.process = some settings)
    (offered : Offered rules now start.spool job deadline) :
    (Clear rules now start.spool job.id.text →
      ∀ (count : ℕ) (cpu : Cpu Payload), Turns rules settings job now deadline start count cpu →
        rank start.spool job.id.text < count →
        ∃ handed, cpu.handed = start.handed ++ handed ∧ job.id ∈ handed) ∧
    (∀ (listing : List String) (clock : ℕ → ℚ) (next : Cpu Payload),
      Free rules settings.maxInflight clock listing start.spool →
      (∀ reading, now ≤ clock reading ∧ clock reading < deadline) →
      start.step rules (.run (.request (.claim (some job.id))) listing clock) = some next →
      next.handed = start.handed ++ [job.id]) ∧
    ∀ bad ∈ start.spool.inbox, Ahead bad job.id.text →
      ∀ cpu : Cpu Payload, (cpuSystem rules).Leads (Calls rules bad start) start cpu →
        bad ∈ cpu.spool.inbox ∧ job.id.text ∈ cpu.spool.inbox ∧
          ∃ handed, cpu.handed = start.handed ++ handed ∧ ∀ id ∈ handed, Ahead id.text bad := by
  refine ⟨fun clear count cpu run many => ?_, fun listing clock next free timely stepped => ?_,
    fun bad queued ahead cpu path => ?_⟩
  · obtain ⟨-, handed, same, outcome⟩ := waits_run live offered clear run
    refine ⟨handed, same, outcome.resolve_right ?_⟩
    rintro ⟨-, -, bound⟩
    omega
  · obtain ⟨listed, -, -, given⟩ := request_step live stepped
    have served : ((serve rules settings clock listing (.claim (some job.id))).run start.spool).2
        = .ok (some job) := claim_requested listed free offered timely
    rw [given, served]
    rfl
  · obtain ⟨stays, handed, same, each⟩ := calls_blocked live queued path
    exact ⟨stays bad queued (lt_irrefl _), stays _ (mem_of_lookup offered.queued) (lt_asymm ahead), handed,
      same, each⟩

end Runs

/-! ### A job and a file that cannot be read -/

/-- A job, and a file that cannot be read under another name. -/
def withBroken (name : String) (id : Id) : Cpu Unit where
  spool := ⟨((∅ : AList _).insert id.text (.job (sampleJob id))).insert name (.refused "Invalid JSON"), ∅, ∅⟩
  process := some oneRequest
  submitted := []
  handed := []
  written := []

theorem withBroken_offered {name : String} (differs : id.text ≠ name) :
    Offered openJobs 0 (withBroken name id).spool (sampleJob id) 3600 where
  queued := (lookup_insert_ne differs).trans (lookup_insert _)
  read := readJob_ok.mpr ⟨rfl, rfl, by norm_num, by norm_num, rfl⟩
  unclaimed := notMem_empty _
  unfinished := notMem_empty _

theorem withBroken_queued {name other : String} (queued : other ∈ (withBroken name id).spool.inbox) :
    other = name ∨ other = id.text := by
  rcases (mem_insert _).mp queued with same | queued
  · exact Or.inl same
  · exact Or.inr (((mem_insert _).mp queued).resolve_right (notMem_empty _))

theorem sample_ahead : Ahead sampleId.text otherId.text := by
  unfold Ahead
  decide +kernel

/-- A file that cannot be read, behind the job. -/
theorem inbox_order_behind : ∃ next : Cpu Unit,
    (withBroken otherId.text sampleId).step openJobs (.run (.request (.claim none)) [] fun _ => 0) = some next ∧
      sampleId ∈ next.handed := by
  have clear : Clear openJobs 0 (withBroken otherId.text sampleId).spool sampleId.text := by
    intro other queued ahead
    rcases withBroken_queued queued with rfl | rfl
    · exact absurd ahead (lt_asymm sample_ahead)
    · exact absurd ahead (lt_irrefl _)
  obtain ⟨next, stepped⟩ : ∃ next, (withBroken otherId.text sampleId).step openJobs
      (.run (.request (.claim none)) [] fun _ => 0) = some next :=
    isSome_iff_exists.mp rfl
  have run : Turns openJobs oneRequest (sampleJob sampleId) 0 3600 (withBroken otherId.text sampleId) 1 next :=
    Turns.claim Turns.start ⟨[], rfl, by decide⟩ (fun _ => ⟨le_rfl, by norm_num⟩) stepped
  have alone : rank (withBroken otherId.text sampleId).spool sampleId.text < 1 := by decide +kernel
  obtain ⟨handed, same, member⟩ := (inbox_order openJobs oneRequest (withBroken otherId.text sampleId)
    (sampleJob sampleId) 0 3600 rfl (withBroken_offered sample_ahead.ne)).1 clear 1 next run alone
  refine ⟨next, stepped, ?_⟩
  rw [same]
  exact mem_append_right _ member

/-- A call of `claim` that comes to the file first. -/
theorem claim_broken {cpu next : Cpu Unit} {listing : List String} {clock : ℕ → ℚ}
    (here : cpu.spool = (withBroken sampleId.text otherId).spool) (live : cpu.process = some oneRequest)
    (stepped : cpu.step openJobs (.run (.request (.claim none)) listing clock) = some next) :
    next.spool = cpu.spool ∧ next.process = some oneRequest ∧ next.handed = cpu.handed := by
  obtain ⟨listed, live', spool, given⟩ := request_step live stepped
  obtain rfl : listing = [] := by
    rw [here] at listed
    exact listed.eq_nil
  have keys : cpu.spool.inbox.keys = [sampleId.text, otherId.text] := by
    rw [here]
    decide +kernel
  have order : inOrder [sampleId.text, otherId.text] = [sampleId.text, otherId.text] :=
    mergeSort_of_pairwise (pairwise_pair.mpr (decide_eq_true (le_of_lt sample_ahead)))
  have found : cpu.spool.inbox.lookup sampleId.text = some (.refused "Invalid JSON") := by
    rw [here]
    exact lookup_insert _
  have bad : ¬ Admissible openJobs (behind clock [] 0) cpu.spool sampleId.text := by
    rintro ⟨job, deadline, own, offered⟩
    cases found.symm.trans (own ▸ offered.queued)
  obtain ⟨error, refused⟩ : ∃ error, (claimFrom openJobs (behind clock []) (pathsOf none cpu.spool)).run cpu.spool
      = ([], .error error) := by
    unfold pathsOf
    rw [keys, order]
    exact claimFrom_refused (mem_of_lookup found) bad
  have served : (serve openJobs oneRequest clock [] (.claim none)).run cpu.spool = ([], .error error) := by
    have free : Free openJobs oneRequest.maxInflight clock [] cpu.spool := ⟨[], rfl, by decide⟩
    have reads : cpu.spool = left cpu.spool (unfinishedClaims openJobs clock []) := rfl
    change (claim openJobs oneRequest.maxInflight clock [] none).run cpu.spool = _
    rw [claim_free free reads, refused]
    rfl
  unfold left at spool
  rw [served] at spool given
  exact ⟨spool, live', given.trans (append_nil _)⟩

/-- A file that cannot be read, ahead of a job: with free capacity, and never expired, the job is handed out by
no number of calls. -/
theorem inbox_waits : ∃ (start : Cpu Unit) (job : Job Unit) (deadline : ℚ),
    start.process = some oneRequest ∧ Offered openJobs 0 start.spool job deadline ∧ 0 < deadline ∧
      ∀ cpu, (cpuSystem openJobs).Leads
          (fun _ action => ∃ listing clock, action = .run (.request (.claim none)) listing clock) start cpu →
        (∀ clock, Free openJobs oneRequest.maxInflight clock [] cpu.spool) ∧ job.id ∉ cpu.handed := by
  refine ⟨withBroken sampleId.text otherId, sampleJob otherId, 3600, rfl, withBroken_offered sample_ahead.ne.symm,
    by norm_num, fun cpu path => ?_⟩
  obtain ⟨here, -, none_⟩ := path.preserves
    (fun cpu => cpu.spool = (withBroken sampleId.text otherId).spool ∧ cpu.process = some oneRequest ∧
      cpu.handed = [])
    (fun before action after called stepped ⟨here, live, none_⟩ => by
      obtain ⟨listing, clock, rfl⟩ := called
      obtain ⟨same, live', handed⟩ := claim_broken here live stepped
      exact ⟨same.trans here, live', handed.trans none_⟩) ⟨rfl, rfl, rfl⟩
  refine ⟨fun clock => ⟨[], by rw [here]; rfl, by decide⟩, ?_⟩
  rw [none_]
  exact not_mem_nil

end TinyDSV41.Relay
