/-
**A workflow is launched once, behind finished phases, with the recorded lease.**

What the files and the history say of each other (`Durable`) holds wherever the process is killed. What
the process has found out (`Held`, `Passed`) holds at its place, and is lost with it.

* `Durable.record` and others — one lemma for each kind of change.
* `perform_sound` — one step in a phase, by the stage.
* `stopped_run` — what stands before a phase keeps every later run from launching it.
* `supervisor_once` — launches, order and leases over all kills and starts.
-/

import TinyDSV41.Supervisor.Basic
import Mathlib.Data.List.Nodup

namespace TinyDSV41.Supervisor

open List Lib Site Event Option
open Function (update update_of_ne update_self)

variable {Blob : Type} {rules : LeaseRules Blob} {setup : Setup} {site next : Site Blob}
  {controls : ℕ → Control Blob} {history : List Event} {groups : String → Option String}
  {index : ℕ} {phase : Phase} {blob : Blob} {digest : String} {stage : Stage} {choice : Choice}

/-! ### What the files say -/

/-- The lease of a phase is copied, and has a digest. -/
def Copied (rules : LeaseRules Blob) (controls : ℕ → Control Blob) (index : ℕ) (digest : String) :
    Prop :=
  ∃ copy, (controls index).lease = some (.whole copy) ∧ rules.digest copy = digest

/-- The files of the phases and what has happened. -/
structure Durable (rules : LeaseRules Blob) (setup : Setup) (controls : ℕ → Control Blob)
    (history : List Event) (groups : String → Option String) : Prop where
  copied : ∀ event ∈ history, Copied rules controls event.phase event.digest
  claimed : ∀ index digest, (controls index).claim = some (.whole digest) →
    Copied rules controls index digest
  finished : ∀ index digest, (controls index).finished = some (.whole digest) →
    Copied rules controls index digest ∧ closed index digest ∈ history ∧
      published index digest ∈ history
  once : (history.filterMap launch?).Nodup
  launched : ∀ index digest, launched index digest ∈ history →
    (controls index).claim = some (.whole digest)
  grouped : ∀ index digest, published index digest ∈ history →
    ∃ phase, setup.phases[index]? = some phase ∧ (groups phase.sealKey).isSome = true

/-- A phase is finished, with a clean closure and a published group. -/
def Passed (setup : Setup) (controls : ℕ → Control Blob) (history : List Event)
    (groups : String → Option String) (index : ℕ) : Prop :=
  ∃ phase digest, setup.phases[index]? = some phase ∧
    (controls index).finished = some (.whole digest) ∧ closed index digest ∈ history ∧
    published index digest ∈ history ∧ (groups phase.sealKey).isSome = true

/-- What the process knows of the phase in which it stands. -/
structure Held (rules : LeaseRules Blob) (controls : ℕ → Control Blob) (history : List Event)
    (index : ℕ) (blob : Blob) (stage : Stage) : Prop where
  copied : stage ≠ .leasing → stage ≠ .copying → Copied rules controls index (rules.digest blob)
  unclaimed : stage ∈ [.guarding, .guardFile, .configuring, .configFile, .claiming] →
    (controls index).claim = none
  claiming : stage = .claimFile → (controls index).claim = some .torn
  claimed : stage = .launching → (controls index).claim = some (.whole (rules.digest blob)) ∧
    index ∉ history.filterMap launch?
  closed : stage ∈ [.publishing, .republishing, .finishing, .finishFile] →
    closed index (rules.digest blob) ∈ history
  published : stage ∈ [.finishing, .finishFile] → published index (rules.digest blob) ∈ history
  known : stage ∈ [.verifying, .republishing] →
    (controls index).finished = some (.whole (rules.digest blob))
  copying : stage = .copying → (controls index).lease = some .torn
  ending : stage = .finishFile → (controls index).finished = some .torn

/-- What the process knows at its place. -/
def Placed (rules : LeaseRules Blob) (setup : Setup) (site : Site Blob) : Prop :=
  match site.process with
  | none | some .opening | some .snapshotting => True
  | some (.entering index) =>
    ∀ earlier < index, Passed setup site.controls site.history site.sealedGroups earlier
  | some (.holding index blob stage) =>
    (∀ earlier < index, Passed setup site.controls site.history site.sealedGroups earlier) ∧
      (∃ phase, setup.phases[index]? = some phase ∧ (phase.leaseKey, blob) ∈ site.deliveries ∧
        accepts rules phase blob = true) ∧
      Held rules site.controls site.history index blob stage

/-- The files and the place of the process. -/
structure Sound (rules : LeaseRules Blob) (setup : Setup) (site : Site Blob) : Prop where
  durable : Durable rules setup site.controls site.history site.sealedGroups
  placed : Placed rules setup site

/-! ### Changes of the files -/

/-- What later files keep of earlier ones. -/
structure Grows (before after : Control Blob) : Prop where
  lease : ∀ blob, before.lease = some (.whole blob) → after.lease = some (.whole blob)
  claim : ∀ digest, before.claim = some (.whole digest) → after.claim = some (.whole digest)
  finished : ∀ digest, before.finished = some (.whole digest) → after.finished = some (.whole digest)

theorem Grows.refl (files : Control Blob) : Grows files files :=
  ⟨fun _ same => same, fun _ same => same, fun _ same => same⟩

theorem grows_update {files : Control Blob} (grows : Grows (controls index) files) (other : ℕ) :
    Grows (controls other) (update controls index files other) := by
  by_cases same : other = index
  · subst same
    rw [update_self]
    exact grows
  · rw [update_of_ne same]
    exact Grows.refl _

theorem Copied.grow {later : ℕ → Control Blob} (copied : Copied rules controls index digest)
    (grows : ∀ index, Grows (controls index) (later index)) : Copied rules later index digest := by
  obtain ⟨copy, there, same⟩ := copied
  exact ⟨copy, (grows index).lease copy there, same⟩

variable {others : String → Option String}

theorem Passed.grow {later : ℕ → Control Blob} {more : List Event}
    (passed : Passed setup controls history groups index)
    (grows : ∀ index, Grows (controls index) (later index)) (longer : ∀ event ∈ history, event ∈ more)
    (kept : ∀ key, (groups key).isSome = true → (others key).isSome = true) :
    Passed setup later more others index := by
  obtain ⟨phase, digest, known, finished, closed, published, grouped⟩ := passed
  exact ⟨phase, digest, known, (grows index).finished digest finished, longer _ closed,
    longer _ published, kept _ grouped⟩

/-- The files of a phase change, and neither its claim nor its end are written. -/
theorem Durable.change {files : Control Blob}
    (durable : Durable rules setup controls history groups) (grows : Grows (controls index) files)
    (claim : ∀ digest, files.claim = some (.whole digest) →
      (controls index).claim = some (.whole digest) ∨ Copied rules controls index digest)
    (finished : ∀ digest, files.finished = some (.whole digest) →
      (controls index).finished = some (.whole digest) ∨
        Copied rules controls index digest ∧ closed index digest ∈ history ∧
          published index digest ∈ history) :
    Durable rules setup (update controls index files) history groups := by
  have grown := grows_update grows
  refine ⟨fun event mem => (durable.copied event mem).grow grown, fun other digest there => ?_,
    fun other digest there => ?_, durable.once,
    fun other digest mem => (grown other).claim digest (durable.launched other digest mem),
    durable.grouped⟩
  · by_cases same : other = index
    · subst same
      rw [update_self] at there
      rcases claim digest there with before | copied
      · exact (durable.claimed other digest before).grow grown
      · exact copied.grow grown
    · rw [update_of_ne same] at there
      exact (durable.claimed other digest there).grow grown
  · by_cases same : other = index
    · subst same
      rw [update_self] at there
      rcases finished digest there with before | ⟨copied, closed, published⟩
      · obtain ⟨copied, closed, published⟩ := durable.finished other digest before
        exact ⟨copied.grow grown, closed, published⟩
      · exact ⟨copied.grow grown, closed, published⟩
    · rw [update_of_ne same] at there
      obtain ⟨copied, closed, published⟩ := durable.finished other digest there
      exact ⟨copied.grow grown, closed, published⟩

variable {event : Event}

/-- Something happens with the lease that is copied. -/
theorem Durable.record (durable : Durable rules setup controls history groups)
    (copied : Copied rules controls event.phase event.digest)
    (launched : ∀ index digest, event = .launched index digest → (controls index).claim = some (.whole
      digest) ∧ index ∉ history.filterMap launch?)
    (grouped : ∀ index digest, event = .published index digest → ∃ phase, setup.phases[index]? = some
      phase ∧ (groups phase.sealKey).isSome = true) :
    Durable rules setup controls (history ++ [event]) groups := by
  refine ⟨fun other mem => ?_, durable.claimed, fun other digest there => ?_, ?_,
    fun other digest mem => ?_, fun other digest mem => ?_⟩
  · rcases mem_append.mp mem with before | now
    · exact durable.copied other before
    · rw [mem_singleton.mp now]
      exact copied
  · obtain ⟨copied, closed, published⟩ := durable.finished other digest there
    exact ⟨copied, mem_append_left _ closed, mem_append_left _ published⟩
  · rw [filterMap_append]
    refine durable.once.append ?_ ?_
    · cases event with
      | launched index digest => exact nodup_singleton index
      | closed | published => exact nodup_nil
    · intro other before now
      obtain ⟨event', mem, launches⟩ := mem_filterMap.mp now
      obtain rfl := mem_singleton.mp mem
      cases event' with
      | launched index digest =>
        cases launches
        exact (launched other digest rfl).2 before
      | closed | published => cases launches
  · rcases mem_append.mp mem with before | now
    · exact durable.launched other digest before
    · exact (launched other digest (mem_singleton.mp now).symm).1
  · rcases mem_append.mp mem with before | now
    · exact durable.grouped other digest before
    · exact grouped other digest (mem_singleton.mp now).symm

theorem Durable.publish (durable : Durable rules setup controls history groups)
    (kept : ∀ key, (groups key).isSome = true → (others key).isSome = true) :
    Durable rules setup controls history others where
  copied := durable.copied
  claimed := durable.claimed
  finished := durable.finished
  once := durable.once
  launched := durable.launched
  grouped index digest member := by
    obtain ⟨phase, known, grouped⟩ := durable.grouped index digest member
    exact ⟨phase, known, kept _ grouped⟩

variable {artifact : Option String}

/-- What `publish_sealed` changes: the group of the phase is there, and every other one that was. -/
theorem publish_cases (published : site.publish phase artifact = some next) :
    next.controls = site.controls ∧ next.history = site.history ∧
      next.deliveries = site.deliveries ∧ (next.sealedGroups phase.sealKey).isSome = true ∧
      ∀ key, (site.sealedGroups key).isSome = true → (next.sealedGroups key).isSome = true := by
  unfold publish at published
  split at published
  case h_1 => cases published
  case h_2 artifact =>
    split at published
    case h_1 before found =>
      split_ifs at published
      cases published
      exact ⟨rfl, rfl, rfl, by rw [found]; rfl, fun _ there => there⟩
    case h_2 absent =>
      cases published
      refine ⟨rfl, rfl, rfl, by simp, fun key there => ?_⟩
      show (update site.sealedGroups phase.sealKey (some artifact) key).isSome = true
      by_cases same : key = phase.sealKey
      · rw [same, update_self]
        rfl
      · rw [update_of_ne same]
        exact there

/-- What `publish_sealed` leaves as it is. -/
theorem Durable.published (durable : Durable rules setup site.controls site.history site.sealedGroups)
    (published : site.publish phase artifact = some next) :
    Durable rules setup next.controls next.history next.sealedGroups := by
  obtain ⟨controls, history, -, -, kept⟩ := publish_cases published
  rw [controls, history]
  exact durable.publish kept

theorem Passed.published (passed : Passed setup site.controls site.history site.sealedGroups index)
    (published : site.publish phase artifact = some next) :
    Passed setup next.controls next.history next.sealedGroups index := by
  obtain ⟨controls, history, -, -, kept⟩ := publish_cases published
  rw [controls, history]
  exact passed.grow (fun _ => Grows.refl _) (fun _ mem => mem) kept

/-! ### One step of the process -/

theorem Sound.raises (durable : Durable rules setup site.controls site.history site.sealedGroups) :
    Sound rules setup site.raises := ⟨durable, trivial⟩

theorem grows_of {before after : Control Blob}
    (lease : after.lease = before.lease ∨ ∀ blob, before.lease ≠ some (.whole blob))
    (claim : after.claim = before.claim ∨ ∀ digest, before.claim ≠ some (.whole digest))
    (finished : after.finished = before.finished ∨
      ∀ digest, before.finished ≠ some (.whole digest)) : Grows before after where
  lease blob there := lease.elim (fun same => same.trans there) fun free => absurd there (free blob)
  claim digest there := claim.elim (fun same => same.trans there) fun free => absurd there (free digest)
  finished digest there :=
    finished.elim (fun same => same.trans there) fun free => absurd there (free digest)

/-- In front of the claim, and at most other stages, only the copy of the blob is known. -/
theorem Held.plain (copied : Copied rules controls index (rules.digest blob))
    (unclaimed : stage ∈ [.guarding, .guardFile, .configuring, .configFile, .claiming] → (controls index).claim = none)
    (only : stage ∉ [.copying, .claimFile, .launching, .publishing, .finishing, .finishFile, .verifying, .republishing]) :
    Held rules controls history index blob stage := by
  simp only [mem_cons, not_mem_nil, or_false, not_or] at only
  refine ⟨fun _ _ => copied, unclaimed, ?_, ?_, ?_, ?_, ?_, ?_, ?_⟩
  all_goals simp [only]

/-- The place of a process in a phase, behind the earlier ones, with a blob that was delivered. -/
structure Standing (rules : LeaseRules Blob) (setup : Setup) (site : Site Blob) (index : ℕ)
    (blob : Blob) : Prop where
  durable : Durable rules setup site.controls site.history site.sealedGroups
  passed : ∀ earlier < index, Passed setup site.controls site.history site.sealedGroups earlier
  given : ∃ phase, setup.phases[index]? = some phase ∧ (phase.leaseKey, blob) ∈ site.deliveries ∧
    accepts rules phase blob = true

section Performing

variable (here : Standing rules setup site index blob)
include here

theorem Standing.stay (held : Held rules site.controls site.history index blob stage) :
    Sound rules setup (site.goto (.holding index blob stage)) :=
  ⟨here.durable, here.passed, here.given, held⟩

theorem Standing.publish (published : site.publish phase artifact = some next) :
    Standing rules setup next index blob where
  durable := here.durable.published published
  passed earlier less := (here.passed earlier less).published published
  given := by
    rw [(publish_cases published).2.2.1]
    exact here.given

theorem Standing.write
    (grows : Grows (site.controls index) (change (site.controls index)))
    (claim : ∀ digest, (change (site.controls index)).claim = some (.whole digest) →
      (site.controls index).claim = some (.whole digest) ∨ Copied rules site.controls index digest)
    (finished : (change (site.controls index)).finished = (site.controls index).finished ∨
      (change (site.controls index)).finished = some .torn)
    (held : Held rules (update site.controls index (change (site.controls index)))
      site.history index blob stage) :
    Sound rules setup ((site.control index change).goto (.holding index blob stage)) := by
  refine ⟨here.durable.change grows claim fun digest there => ?_, fun earlier less => ?_, here.given,
    held⟩
  · rcases finished with same | torn
    · exact Or.inl (same ▸ there)
    · rw [torn] at there
      cases there
  · exact (here.passed earlier less).grow (grows_update grows) (fun _ mem => mem)
      fun _ there => there

theorem Standing.happens (copied : Copied rules site.controls event.phase event.digest)
    (launched : ∀ index digest, event = .launched index digest → (site.controls index).claim = some
      (.whole digest) ∧ index ∉ site.history.filterMap launch?)
    (grouped : ∀ index digest, event = .published index digest → ∃ phase, setup.phases[index]? = some
      phase ∧ (site.sealedGroups phase.sealKey).isSome = true)
    (held : Held rules site.controls (site.history ++ [event]) index blob stage) :
    Sound rules setup ((site.record event).goto (.holding index blob stage)) := by
  refine ⟨here.durable.record copied launched grouped, fun earlier less => ?_, here.given, held⟩
  exact (here.passed earlier less).grow (fun _ => Grows.refl _)
    (fun _ mem => mem_append_left _ mem) fun _ there => there

/-- The guard and the configuration are written in front of the claim. -/
theorem Standing.note
    (same : ∀ files, (change files).lease = files.lease ∧ (change files).claim = files.claim ∧
      (change files).finished = files.finished)
    (copied : Copied rules site.controls index (rules.digest blob)) (unclaimed : (site.controls index).claim = none)
    (early : stage ∈ [.guardFile, .configuring, .configFile, .claiming]) :
    Sound rules setup ((site.control index change).goto (.holding index blob stage)) := by
  obtain ⟨lease, claim, finished⟩ := same (site.controls index)
  have grows := grows_of (Or.inl lease) (Or.inl claim) (Or.inl finished)
  refine here.write grows (fun _ there => Or.inl (claim ▸ there)) (Or.inl finished)
    (.plain (copied.grow (grows_update grows)) (fun _ => ?_) ?_)
  · rw [update_self, claim]
    exact unclaimed
  · simp only [mem_cons, not_mem_nil, or_false] at early
    rcases early with rfl | rfl | rfl | rfl <;> decide

end Performing

theorem Sound.pass (durable : Durable rules setup site.controls site.history site.sealedGroups)
    (passed : ∀ earlier < index, Passed setup site.controls site.history site.sealedGroups earlier)
    (here : Passed setup site.controls site.history site.sealedGroups index) :
    Sound rules setup (site.goto (.entering (index + 1))) := by
  refine ⟨durable, fun earlier less => ?_⟩
  rcases Nat.lt_succ_iff_lt_or_eq.mp less with before | rfl
  · exact passed earlier before
  · exact here

theorem perform_sound (sound : Sound rules setup site)
    (place : site.process = some (.holding index blob stage))
    (known : setup.phases[index]? = some phase) :
    Sound rules setup (site.perform rules index phase blob choice stage) := by
  obtain ⟨durable, placed⟩ := sound
  unfold Placed at placed
  rw [place] at placed
  obtain ⟨passed, given, held⟩ := placed
  have here : Standing rules setup site index blob := ⟨durable, passed, given⟩
  have copied := held.copied
  cases stage with simp only [perform]
  | leasing =>
    split
    case h_1 absent =>
      refine here.write (grows_of (Or.inr (by simp [absent])) (Or.inl rfl) (Or.inl rfl))
        (fun _ same => Or.inl same) (Or.inl rfl) ?_
      constructor <;> simp
    case h_2 => exact Sound.raises durable
    case h_3 copy there =>
      split_ifs with same
      · exact here.stay (.plain ⟨copy, there, same⟩ (by simp) (by decide))
      · exact Sound.raises durable
  | copying =>
    have torn := held.copying rfl
    exact here.write (grows_of (Or.inr (by simp [torn])) (Or.inl rfl) (Or.inl rfl))
      (fun _ same => Or.inl same) (Or.inl rfl) (.plain ⟨blob, by rw [update_self], rfl⟩ (by simp) (by decide))
  | shaping =>
    split_ifs
    · exact here.stay (.plain (copied nofun nofun) (by simp) (by decide))
    · exact Sound.raises durable
  | deciding =>
    have copied := copied nofun nofun
    split
    case h_1 => exact Sound.raises durable
    case h_2 digest there =>
      split_ifs with same
      · refine here.stay ?_
        constructor <;> simp [copied, same ▸ there]
      · exact Sound.raises durable
    case h_3 absent =>
      split_ifs with existing taken
      · exact here.stay (.plain copied (by simp) (by decide))
      · exact Sound.raises durable
      · rw [not_or, not_isSome_iff_eq_none] at taken
        exact here.stay (.plain copied (fun _ => taken.1) (by decide))
  | guarding | configuring =>
    split_ifs
    · exact here.note (fun _ => ⟨rfl, rfl, rfl⟩) (copied nofun nofun) (held.unclaimed (by decide))
        (by decide)
    · exact Sound.raises durable
  | guardFile | configFile =>
    exact here.note (fun _ => ⟨rfl, rfl, rfl⟩) (copied nofun nofun) (held.unclaimed (by decide))
      (by decide)
  | claiming =>
    split_ifs with absent
    · have grows : Grows (site.controls index) { site.controls index with claim := some .torn } :=
        grows_of (Or.inl rfl) (Or.inr (by simp [held.unclaimed])) (Or.inl rfl)
      refine here.write grows nofun (Or.inl rfl) ?_
      constructor <;> simp [(copied nofun nofun).grow (grows_update grows)]
    · exact Sound.raises durable
  | claimFile =>
    have copied := copied nofun nofun
    have torn := held.claiming rfl
    have grows : Grows (site.controls index)
        { site.controls index with claim := some (.whole (rules.digest blob)) } :=
      grows_of (Or.inl rfl) (Or.inr (by simp [torn])) (Or.inl rfl)
    have unlaunched : index ∉ site.history.filterMap launch? := by
      -- A launch would have left a whole claim.
      intro mem
      obtain ⟨event, before, launches⟩ := mem_filterMap.mp mem
      cases event with
      | launched other digest =>
        cases launches
        rw [durable.launched index digest before] at torn
        cases torn
      | closed | published => cases launches
    refine here.write grows (fun digest there => Or.inr ?_) (Or.inl rfl)
      ⟨fun _ _ => copied.grow (grows_update grows), ?_, ?_, fun _ => ⟨?_, unlaunched⟩, ?_, ?_, ?_, ?_, ?_⟩
    · cases there
      exact copied
    all_goals simp
  | launching =>
    have copied := copied nofun nofun
    split_ifs
    · refine here.happens copied (fun other digest same => ?_) nofun (.plain copied (by simp) (by decide))
      cases same
      exact held.claimed rfl
    · exact Sound.raises durable
  | running =>
    have copied := copied nofun nofun
    split_ifs
    · exact here.stay (.plain copied (by simp) (by decide))
    · exact here.stay (.plain copied (by simp) (by decide))
    · exact Sound.raises durable
  | excluding =>
    cases published : site.publish phase choice.artifact with
    | none => exact Sound.raises durable
    | some after => exact Sound.raises (durable.published published)
  | closing =>
    have copied := copied nofun nofun
    split_ifs
    · refine here.happens copied nofun nofun ?_
      constructor <;> simp [copied]
    · exact Sound.raises durable
  | publishing =>
    have copied := copied nofun nofun
    have closed := held.closed (by decide)
    split
    case h_1 => exact Sound.raises durable
    case h_2 after published =>
      obtain ⟨controls, history, -, there, -⟩ := publish_cases published
      rw [← controls] at copied
      rw [← history] at closed
      refine (here.publish published).happens copied nofun (fun other digest same => ?_) ?_
      · cases same
        exact ⟨phase, known, there⟩
      · constructor <;> simp [copied, closed]
  | finishing =>
    have closed := held.closed (by decide)
    have published := held.published (by decide)
    split
    case h_1 absent =>
      have grows : Grows (site.controls index) { site.controls index with finished := some .torn } :=
        grows_of (Or.inl rfl) (Or.inl rfl) (Or.inr (by simp [absent]))
      refine here.write grows (fun _ same => Or.inl same) (Or.inr rfl) ?_
      constructor <;> simp [(copied nofun nofun).grow (grows_update grows), closed, published]
    case h_2 => exact Sound.raises durable
  | finishFile =>
    have closed := held.closed (by decide)
    have published := held.published (by decide)
    have torn := held.ending rfl
    have grows : Grows (site.controls index)
        { site.controls index with finished := some (.whole (rules.digest blob)) } :=
      grows_of (Or.inl rfl) (Or.inl rfl) (Or.inr (by simp [torn]))
    refine Sound.pass (durable.change grows (fun _ same => Or.inl same) fun digest there => Or.inr ?_)
      (fun earlier less => (passed earlier less).grow (grows_update grows) (fun _ mem => mem)
        fun _ there => there) ?_
    · cases there
      exact ⟨copied nofun nofun, closed, published⟩
    · obtain ⟨found, same, grouped⟩ := durable.grouped index _ published
      refine ⟨found, rules.digest blob, same, ?_, closed, published, grouped⟩
      show (update site.controls index _ index).finished = _
      rw [update_self]
  | verifying =>
    have copied := copied nofun nofun
    split_ifs
    · refine here.happens copied nofun nofun ?_
      constructor <;> simp [copied, held.known]
    · exact Sound.raises durable
  | republishing =>
    have copied := copied nofun nofun
    have closed := held.closed (by decide)
    have finished := held.known (by decide)
    split
    case h_1 => exact Sound.raises durable
    case h_2 after published =>
      obtain ⟨controls, history, -, there, -⟩ := publish_cases published
      rw [← controls] at copied finished
      rw [← history] at closed
      refine Sound.pass ((durable.published published).record copied nofun fun other digest same => ?_)
        (fun earlier less => ((passed earlier less).published published).grow
          (fun _ => Grows.refl _) (fun _ mem => mem_append_left _ mem) fun _ there => there) ?_
      · cases same
        exact ⟨phase, known, there⟩
      · exact ⟨phase, rules.digest blob, known, finished, mem_append_left _ closed,
          mem_append_right _ (mem_singleton_self _), there⟩

/-- What a stage writes into the files of its phase. -/
def Stage.written (blob : Blob) (digest : String) (files : Control Blob) : Stage → Control Blob
  | .leasing => { files with lease := some .torn }
  | .copying => { files with lease := some (.whole blob) }
  | .guarding => { files with guard := some .torn }
  | .guardFile => { files with guard := some (.whole ()) }
  | .configuring => { files with config := some .torn }
  | .configFile => { files with config := some (.whole ()) }
  | .claiming => { files with claim := some .torn }
  | .claimFile => { files with claim := some (.whole digest) }
  | .finishing => { files with finished := some .torn }
  | .finishFile => { files with finished := some (.whole digest) }
  | _ => files

section Performed

variable (performed : site.perform rules index phase blob choice stage = next)
include performed

/-- What a step in a phase does not touch. -/
theorem perform_frame : next.delivered = site.delivered ∧ next.deliveries = site.deliveries ∧
    next.outputs = site.outputs ∧ next.snapshot = site.snapshot := by
  have publishes : ∀ after, site.publish phase choice.artifact = some after →
      after.delivered = site.delivered ∧ after.deliveries = site.deliveries ∧
        after.outputs = site.outputs ∧ after.snapshot = site.snapshot := by
    intro after published
    unfold publish at published
    repeat' split at published
    all_goals
      cases published <;> exact ⟨rfl, rfl, rfl, rfl⟩
  subst performed
  cases stage with simp only [perform]
  | excluding =>
    cases published : site.publish phase choice.artifact with
    | none => exact ⟨rfl, rfl, rfl, rfl⟩
    | some after => exact publishes after published
  | publishing | republishing =>
    split
    case h_1 => exact ⟨rfl, rfl, rfl, rfl⟩
    case h_2 after published => exact publishes after published
  | _ =>
    repeat' split
    all_goals exact ⟨rfl, rfl, rfl, rfl⟩

/-- What a step in a phase adds to the history. -/
theorem perform_history : next.history = site.history ∨
    (stage = .launching ∧ next.history = site.history ++ [.launched index (rules.digest blob)]) ∨
    (closedWith rules site.outputs phase blob = true ∧
      next.history = site.history ++ [.closed index (rules.digest blob)]) ∨
    next.history = site.history ++ [.published index (rules.digest blob)] := by
  subst performed
  cases stage with simp only [perform]
  | launching =>
    split_ifs
    · exact Or.inr (Or.inl ⟨trivial, rfl⟩)
    · exact Or.inl rfl
  | closing | verifying =>
    split_ifs with closed
    · exact Or.inr (Or.inr (Or.inl ⟨closed, rfl⟩))
    · exact Or.inl rfl
  | excluding =>
    cases published : site.publish phase choice.artifact with
    | none => exact Or.inl rfl
    | some after => exact Or.inl (publish_cases published).2.1
  | publishing | republishing =>
    split
    case h_1 => exact Or.inl rfl
    case h_2 after published =>
      refine Or.inr (Or.inr (Or.inr ?_))
      show after.history ++ _ = _
      rw [(publish_cases published).2.1]
  | _ =>
    repeat' split
    all_goals exact Or.inl rfl

/-- A step in a phase writes what its stage does, or nothing. -/
theorem perform_files (other : ℕ) : next.controls other = site.controls other ∨ other = index ∧
    next.controls other = stage.written blob (rules.digest blob) (site.controls other) := by
  have writes : next.controls = site.controls ∨ next.controls
      = update site.controls index (stage.written blob (rules.digest blob) (site.controls index)) := by
    subst performed
    cases stage with simp only [perform]
    | excluding =>
      cases published : site.publish phase choice.artifact with
      | none => exact Or.inl rfl
      | some after => exact Or.inl (publish_cases published).1
    | publishing | republishing =>
      split
      case h_1 => exact Or.inl rfl
      case h_2 after published => exact Or.inl (publish_cases published).1
    | _ =>
      repeat' split
      all_goals first
        | exact Or.inl rfl
        | exact Or.inr rfl
  rcases writes with same | written
  · exact Or.inl (by rw [same])
  · rw [written]
    by_cases same : other = index
    · subst same
      exact Or.inr ⟨rfl, update_self ..⟩
    · exact Or.inl (update_of_ne same ..)

end Performed

/-- What is at hand has been delivered. -/
def Arrived (site : Site Blob) : Prop :=
  ∀ key blob, site.delivered key = some blob → (key, blob) ∈ site.deliveries

theorem advance_sound (sound : Sound rules setup site) (arrived : Arrived site)
    (advanced : site.advance rules setup choice = some next) :
    Sound rules setup next ∧ Arrived next := by
  have durable := sound.durable
  have placed := sound.placed
  unfold advance at advanced
  unfold Placed at placed
  split at advanced
  case h_1 => cases advanced
  case h_2 =>
    split at advanced
    all_goals
      cases advanced
    · exact ⟨⟨durable, trivial⟩, arrived⟩
    · exact ⟨Sound.raises durable, arrived⟩
    · split_ifs
      · exact ⟨⟨durable, fun _ less => absurd less (Nat.not_lt_zero _)⟩, arrived⟩
      · exact ⟨Sound.raises durable, arrived⟩
  case h_3 =>
    cases advanced
    exact ⟨⟨durable, fun _ less => absurd less (Nat.not_lt_zero _)⟩, arrived⟩
  case h_4 index place =>
    rw [place] at placed
    split at advanced
    case h_1 =>
      cases advanced
      exact ⟨Sound.raises durable, arrived⟩
    case h_2 phase known =>
      by_cases reserved : phase.leaseKey = "config.json"
      · rw [if_pos reserved] at advanced
        cases advanced
        exact ⟨Sound.raises durable, arrived⟩
      rw [if_neg reserved] at advanced
      split at advanced
      case h_1 =>
        split_ifs at advanced
        cases advanced
        exact ⟨Sound.raises durable, arrived⟩
      case h_2 blob delivered =>
        cases advanced
        split_ifs with accepted
        · have here : Standing rules setup site index blob :=
            ⟨durable, placed, phase, known, arrived _ _ delivered, accepted⟩
          refine ⟨here.stay ?_, arrived⟩
          constructor <;> simp
        · exact ⟨Sound.raises durable, arrived⟩
  case h_5 index blob stage place =>
    obtain ⟨phase, known, rfl⟩ := map_eq_some_iff.mp advanced
    refine ⟨perform_sound sound place known, ?_⟩
    obtain ⟨delivered, deliveries, -⟩ := perform_frame rfl
    unfold Arrived
    rw [delivered, deliveries]
    exact arrived

variable {action : Action Blob}

theorem supervisor_sound_step (sound : Sound rules setup site) (arrived : Arrived site)
    (stepped : site.step rules setup action = some next) :
    Sound rules setup next ∧ Arrived next := by
  cases action with
  | deliver key blob =>
    cases stepped
    refine ⟨⟨sound.durable, ?_⟩, fun other found there => ?_⟩
    · have placed := sound.placed
      unfold Placed at placed ⊢
      split
      case h_1 | h_2 | h_3 => trivial
      case h_4 index place =>
        rw [show site.process = _ from place] at placed
        exact placed
      case h_5 index blob stage place =>
        rw [show site.process = _ from place] at placed
        obtain ⟨passed, ⟨phase, known, mem, accepted⟩, held⟩ := placed
        exact ⟨passed, ⟨phase, known, mem_append_left _ mem, accepted⟩, held⟩
    · change update site.delivered key (some blob) other = some found at there
      by_cases same : other = key
      · subst same
        rw [update_self] at there
        cases there
        exact mem_append_right _ (mem_singleton_self _)
      · rw [update_of_ne same] at there
        exact mem_append_left _ (arrived other found there)
  | output directory output =>
    cases stepped
    exact ⟨⟨sound.durable, sound.placed⟩, arrived⟩
  | start =>
    simp only [step] at stepped
    split_ifs at stepped
    cases stepped
    exact ⟨⟨sound.durable, trivial⟩, arrived⟩
  | advance choice => exact advance_sound sound arrived stepped
  | kill =>
    simp only [step] at stepped
    split_ifs at stepped
    cases stepped
    exact ⟨Sound.raises sound.durable, arrived⟩

theorem supervisor_sound_run (reached : (supervisorSystem rules setup).Reachable System.always site) :
    Sound rules setup site ∧ Arrived site := by
  refine reached.invariant (fun site => Sound rules setup site ∧ Arrived site) ?_ ?_
  · rintro _ ⟨outputs, rfl⟩
    refine ⟨⟨⟨?_, ?_, ?_, nodup_nil, ?_, ?_⟩, trivial⟩, ?_⟩
    · exact fun _ wrong => absurd wrong not_mem_nil
    · exact nofun
    · exact nofun
    · exact fun _ _ wrong => absurd wrong not_mem_nil
    · exact fun _ _ wrong => absurd wrong not_mem_nil
    · exact nofun
  · exact fun _ _ _ _ stepped known => supervisor_sound_step known.1 known.2 stepped

/-! ### Barriers -/

/-- The files of a phase that stop a later run before it launches: a torn copy of the lease, and what
`write_new` or the supervisor finds in place. -/
inductive Barrier
  | lease
  | guard
  | config
  | claim
deriving DecidableEq

/-- The barrier is among the files of a phase. -/
def Barrier.Stands (files : Control Blob) : Barrier → Prop
  | .lease => files.lease = some .torn
  | .guard => files.guard.isSome = true
  | .config => files.config.isSome = true
  | .claim => files.claim.isSome = true

/-- The stages between a barrier and the launch. -/
def Barrier.beyond : Barrier → Stage → Bool
  | .lease, stage => stage ≠ .leasing
  | .guard, stage => stage ∈
      [.guardFile, .configuring, .configFile, .claiming, .claimFile, .launching]
  | .config, stage => stage ∈ [.configFile, .claiming, .claimFile, .launching]
  | .claim, stage => stage ∈ [.claimFile, .launching]

def launchesOf (index : ℕ) (history : List Event) : List Event :=
  history.filter fun event => event.launch? = some index

/-- A barrier stands before a phase, and no process is beyond it. -/
structure Stopped (index : ℕ) (barrier : Barrier) (launches : List Event) (site : Site Blob) :
    Prop where
  stands : barrier.Stands (site.controls index)
  before : ∀ blob stage, site.process = some (.holding index blob stage) → barrier.beyond stage = false
  same : launchesOf index site.history = launches

theorem launchesOf_append (other : event.launch? ≠ some index) :
    launchesOf index (history ++ [event]) = launchesOf index history := by
  unfold launchesOf
  simp [other]

/-- Only the launching stage of the phase itself adds to its launches. -/
theorem perform_launches {other : ℕ}
    (performed : site.perform rules index phase blob choice stage = next)
    (quiet : stage = .launching → index ≠ other) :
    launchesOf other next.history = launchesOf other site.history := by
  rcases perform_history performed with same | ⟨launching, longer⟩ | ⟨-, longer⟩ | longer
  · rw [same]
  · rw [longer, launchesOf_append]
    intro launches
    exact quiet launching (Option.some.inj launches)
  all_goals
    rw [longer, launchesOf_append]
    exact nofun

theorem Barrier.launching_beyond (barrier : Barrier) : barrier.beyond .launching = true := by
  cases barrier <;> rfl

variable {barrier : Barrier}

/-- A barrier stays where no process is beyond it. -/
theorem perform_stands {other : ℕ}
    (performed : site.perform rules index phase blob choice stage = next)
    (stands : barrier.Stands (site.controls other))
    (before : other = index → barrier.beyond stage = false) : barrier.Stands (next.controls other) := by
  rcases perform_files performed other with same | ⟨here, written⟩
  · rw [same]
    exact stands
  · rw [written]
    have before := before here
    cases stage with
    | copying =>
      cases barrier with
      | lease => exact absurd before (by decide)
      | guard | config | claim => exact stands
    | _ => cases barrier <;> first | exact stands | rfl

/-- A step in a phase does not get past a barrier. -/
theorem perform_before (stands : barrier.Stands (site.controls index))
    (before : barrier.beyond stage = false) {found : Blob} {later : Stage}
    (stays : (site.perform rules index phase blob choice stage).process = some (.holding index found
      later)) : barrier.beyond later = false := by
  cases stage with
  | leasing =>
    simp only [perform] at stays
    split at stays
    case h_1 absent =>
      cases stays
      cases barrier with
      | lease => exact absurd (absent.symm.trans stands) (by simp)
      | guard | config | claim => rfl
    case h_2 => cases stays
    case h_3 copy there =>
      split_ifs at stays
      · cases stays
        cases barrier with
        | lease => exact absurd (there.symm.trans stands) (by simp)
        | guard | config | claim => rfl
      · cases stays
  | guarding =>
    simp only [perform] at stays
    split_ifs at stays with qualified
    · cases stays
      cases barrier with
      | guard =>
        exact absurd stands (by simp [Barrier.Stands, qualified.2])
      | lease => exact absurd before (by decide)
      | config | claim => rfl
    · cases stays
  | configuring =>
    simp only [perform] at stays
    split_ifs at stays with absent
    · cases stays
      cases barrier with
      | config =>
        exact absurd stands (by simp [Barrier.Stands, absent])
      | lease | guard => exact absurd before (by decide)
      | claim => rfl
    · cases stays
  | claiming =>
    simp only [perform] at stays
    split_ifs at stays with absent
    · cases barrier with
      | claim =>
        exact absurd stands (by simp [Barrier.Stands, absent])
      | lease | guard | config => exact absurd before (by decide)
    · cases stays
  | _ =>
    -- Every other step goes on in front of the barrier, or ends.
    simp only [perform] at stays
    repeat' split at stays
    all_goals first
      | cases stays <;> cases barrier <;> first | rfl | exact absurd before (by decide)

theorem perform_place (rules : LeaseRules Blob) (site : Site Blob) (index : ℕ) (phase : Phase)
    (blob : Blob) (choice : Choice) (stage : Stage) :
    (site.perform rules index phase blob choice stage).process = none ∨
    (site.perform rules index phase blob choice stage).process = some (.entering (index + 1)) ∨
    ∃ later, (site.perform rules index phase blob choice stage).process
      = some (.holding index blob later) := by
  cases stage with
  | excluding => exact Or.inl rfl
  | _ =>
    simp only [perform]
    repeat' split
    all_goals first
      | exact Or.inl rfl
      | exact Or.inr (Or.inl rfl)
      | exact Or.inr (Or.inr ⟨_, rfl⟩)

theorem stopped_step {launches : List Event} (stopped : Stopped index barrier launches site)
    (stepped : site.step rules setup action = some next) :
    Stopped index barrier launches next := by
  obtain ⟨stands, before, same⟩ := stopped
  cases action with
  | deliver key blob | output directory output =>
    cases stepped
    exact ⟨stands, before, same⟩
  | start | kill =>
    simp only [step] at stepped
    split_ifs at stepped
    cases stepped
    exact ⟨stands, nofun, same⟩
  | advance choice =>
    simp only [step, advance] at stepped
    split at stepped
    case h_1 => cases stepped
    case h_2 =>
      repeat' split at stepped
      all_goals
        cases stepped
        exact ⟨stands, nofun, same⟩
    case h_3 =>
      cases stepped
      exact ⟨stands, nofun, same⟩
    case h_4 other place =>
      repeat' split at stepped
      all_goals
        cases stepped <;> refine ⟨stands, fun found stage there => ?_, same⟩ <;> cases there <;>
          cases barrier <;> rfl
    case h_5 other blob stage place =>
      obtain ⟨phase, known, rfl⟩ := map_eq_some_iff.mp stepped
      have here : index = other → barrier.beyond stage = false := by
        rintro rfl
        exact before blob stage place
      refine ⟨perform_stands rfl stands here, fun found later there => ?_, ?_⟩
      · rcases perform_place rules site other phase blob choice stage with
          ends | enters | ⟨after, stays⟩
        · rw [ends] at there
          cases there
        · rw [enters] at there
          cases there
        · have same' := stays.symm.trans there
          cases same'
          exact perform_before stands (here rfl) stays
      · refine (perform_launches rfl ?_).trans same
        rintro rfl rfl
        exact absurd (here rfl) (by rw [barrier.launching_beyond]; decide)

theorem stopped_run {later : Site Blob} (stands : barrier.Stands (site.controls index))
    (gone : site.process = none) (path : (supervisorSystem rules setup).Leads System.always site later) :
    launchesOf index later.history = launchesOf index site.history := by
  have start : Stopped index barrier (launchesOf index site.history) site :=
    ⟨stands, (by intro _ _ held; rw [gone] at held; cases held), rfl⟩
  exact (path.preserves (Stopped index barrier (launchesOf index site.history))
    (fun _ _ _ _ stepped stopped => stopped_step stopped stepped) start).same

/-! ### The history of a run -/

/-- Only a step in a phase makes history. -/
theorem step_history (stepped : site.step rules setup action = some next) :
    next.history = site.history ∨
    ∃ index phase blob stage choice, site.process = some (.holding index blob stage) ∧
      setup.phases[index]? = some phase ∧
      site.perform rules index phase blob choice stage = next := by
  cases action with simp only [step] at stepped
  | deliver key blob | output directory output =>
    cases stepped
    exact Or.inl rfl
  | start | kill =>
    split_ifs at stepped
    cases stepped
    exact Or.inl rfl
  | advance choice =>
    cases place : site.process with
    | none =>
      simp only [advance, place] at stepped
      cases stepped
    | some place' =>
      cases place' with
      | holding index blob stage =>
        simp only [advance, place] at stepped
        obtain ⟨phase, known, rfl⟩ := map_eq_some_iff.mp stepped
        exact Or.inr ⟨index, phase, blob, stage, choice, rfl, known, rfl⟩
      | _ =>
        left
        simp only [advance, place] at stepped
        repeat' split at stepped
        all_goals cases stepped <;> rfl

theorem event_ne_self : history ≠ history ++ [event] := by
  intro same
  have lengths := congrArg length same
  simp at lengths

theorem launched_by (stepped : site.step rules setup action = some next)
    (launches : next.history = site.history ++ [.launched index digest]) :
    ∃ blob, rules.digest blob = digest ∧ site.process = some (.holding index blob .launching) := by
  rcases step_history stepped with quiet | ⟨other, phase, blob, stage, choice, place, known, performed⟩
  · exact absurd (quiet.symm.trans launches) event_ne_self
  · rcases perform_history performed with
      quiet | ⟨rfl, longer⟩ | ⟨-, longer⟩ | longer
    · exact absurd (quiet.symm.trans launches) event_ne_self
    · have same := append_cancel_left (longer.symm.trans launches)
      cases same
      exact ⟨blob, rfl, place⟩
    all_goals cases append_cancel_left (longer.symm.trans launches)

theorem closed_by (stepped : site.step rules setup action = some next)
    (closes : next.history = site.history ++ [.closed index digest]) :
    ∃ phase blob stage, setup.phases[index]? = some phase ∧ rules.digest blob = digest ∧
      site.process = some (.holding index blob stage) ∧
      closedWith rules site.outputs phase blob = true := by
  rcases step_history stepped with quiet | ⟨other, phase, blob, stage, choice, place, known, performed⟩
  · exact absurd (quiet.symm.trans closes) event_ne_self
  · rcases perform_history performed with
      quiet | ⟨-, longer⟩ | ⟨clean, longer⟩ | longer
    · exact absurd (quiet.symm.trans closes) event_ne_self
    · cases append_cancel_left (longer.symm.trans closes)
    · cases append_cancel_left (longer.symm.trans closes)
      exact ⟨phase, blob, stage, known, rfl, place, clean⟩
    · cases append_cancel_left (longer.symm.trans closes)

theorem closedWith_eq_true {outputs : String → Option Output}
    (clean : closedWith rules outputs phase blob = true) :
    ∃ lease, rules.read blob = some lease ∧
      cleanClosed (outputs phase.destination) phase.groupId lease = true := by
  unfold closedWith at clean
  split at clean
  case h_1 => cases clean
  case h_2 lease read => exact ⟨lease, read, clean⟩

theorem Copied.unique {other : String} (one : Copied rules controls index digest)
    (two : Copied rules controls index other) : digest = other := by
  obtain ⟨copy, there, rfl⟩ := one
  obtain ⟨copy', there', rfl⟩ := two
  rw [there] at there'
  cases there'
  rfl

theorem Durable.recorded (durable : Durable rules setup controls history groups)
    (recorded : (controls index).claim = some (.whole digest) ∨ (controls index).finished = some (.whole
      digest)) (mem : event ∈ history) (here : event.phase = index) :
    event.digest = digest := by
  have copied : Copied rules controls index digest := by
    rcases recorded with claimed | finished
    · exact durable.claimed index digest claimed
    · exact (durable.finished index digest finished).1
  have used := durable.copied event mem
  rw [here] at used
  exact used.unique copied

/-- **Launched once, in order, with the recorded lease.** Over all runs with kills and starts anywhere:
no phase is launched twice; when a phase is launched, every earlier one is finished, with a clean
closure and a published group; a closure is only recorded as clean with the delivered lease; every use of
a lease in a claimed or finished phase is of the recorded one; and once a phase is claimed and the process
is gone, no later run launches it again. -/
theorem supervisor_once (rules : LeaseRules Blob) (setup : Setup) (site : Site Blob)
    (reached : (supervisorSystem rules setup).Reachable System.always site) :
    (site.history.filterMap launch?).Nodup ∧
    (∀ action next index digest, site.step rules setup action = some next →
      next.history = site.history ++ [.launched index digest] → ∀ earlier < index,
        Passed setup site.controls site.history site.sealedGroups earlier) ∧
    (∀ action next index digest, site.step rules setup action = some next →
      next.history = site.history ++ [.closed index digest] →
        ∃ phase blob lease, setup.phases[index]? = some phase ∧
          (phase.leaseKey, blob) ∈ site.deliveries ∧ rules.digest blob = digest ∧
          rules.read blob = some lease ∧
          cleanClosed (site.outputs phase.destination) phase.groupId lease = true) ∧
    (∀ index digest, ((site.controls index).claim = some (.whole digest) ∨
      (site.controls index).finished = some (.whole digest)) →
        ∀ event ∈ site.history, event.phase = index → event.digest = digest) ∧
    (∀ index, (site.controls index).claim.isSome = true → site.process = none →
      ∀ later, (supervisorSystem rules setup).Leads System.always site later →
        launchesOf index later.history = launchesOf index site.history) := by
  obtain ⟨sound, -⟩ := supervisor_sound_run reached
  refine ⟨sound.durable.once, ?order, ?closes, ?recorded, ?blocked⟩
  case order =>
    intro action next index digest stepped launches
    obtain ⟨blob, -, place⟩ := launched_by stepped launches
    have placed := sound.placed
    unfold Placed at placed
    rw [place] at placed
    exact placed.1
  case closes =>
    intro action next index digest stepped closes
    obtain ⟨phase, blob, stage, known, same, place, clean⟩ := closed_by stepped closes
    obtain ⟨lease, read, clean⟩ := closedWith_eq_true clean
    have placed := sound.placed
    unfold Placed at placed
    rw [place] at placed
    obtain ⟨-, ⟨phase', known', delivered, -⟩, -⟩ := placed
    rw [known] at known'
    cases known'
    exact ⟨phase, blob, lease, known, delivered, same, read, clean⟩
  case recorded =>
    intro index digest recorded event member here
    exact sound.durable.recorded recorded member here
  case blocked =>
    intro index claimed gone later path
    have stands : Barrier.claim.Stands (site.controls index) := claimed
    exact stopped_run stands gone path

/-! ### Two phases and a kill -/

def plainRules : LeaseRules Lease := ⟨some, fun _ => true, Lease.rest⟩

def samplePhase (version : ℕ) (leaseKey sealKey output : String) : Phase :=
  ⟨leaseKey, sealKey, version, version, 2, none, output, none⟩

def twoPhases : Setup where
  phases := [samplePhase 0 "l0" "s0" "o0", samplePhase 1 "l1" "s1" "o1"]
  some_phase := by decide
  leaseKeys := by decide
  sealKeys := by decide
  outputs := by decide
  groupIds := by decide

def sampleLease (version : ℕ) (text : String) : Lease :=
  ⟨"terminalbench-policy-lease", 1, version, none, none, text⟩

/-- An output of the first phase with a clean closure. -/
def cleanOutput : Output where
  seal? id := some ⟨"terminalbench-sealed-group", id, ⟨true, true, [], [], none, []⟩⟩
  closure? := some ⟨true, true, [], [], none, []⟩
  lease? := some (sampleLease 0 "first")

def going : Choice := ⟨false, true, true, 0, some "group"⟩

/-- The first phase is launched, closed and finished; the second one is launched, and the supervisor is
killed. -/
def killedLate : List (Action Lease) :=
  [.start, .deliver "l0" (sampleLease 0 "first"), .deliver "l1" (sampleLease 1 "second")] ++
    replicate 14 (.advance going) ++ [.output "o0" (some cleanOutput)] ++
    replicate 17 (.advance going) ++ [.kill]

theorem supervisor_once_killed : ∃ site : Site Lease,
    (supervisorSystem plainRules twoPhases).Reachable System.always site ∧
      site.history = [.launched 0 "first", .closed 0 "first", .published 0 "first",
        .launched 1 "second"] ∧
      ∀ later, (supervisorSystem plainRules twoPhases).Leads System.always site later →
        launchesOf 1 later.history = [.launched 1 "second"] := by
  have executed : ((supervisorSystem plainRules twoPhases).run System.always (.fresh fun _ => none)
      killedLate).map (fun site => (site.history, (site.controls 1).claim, site.process.isNone))
      = some ([.launched 0 "first", .closed 0 "first", .published 0 "first", .launched 1 "second"],
        some (.whole "second"), true) := by
    decide +kernel
  obtain ⟨site, finish, same⟩ := map_eq_some_iff.mp executed
  simp only [Prod.mk.injEq] at same
  obtain ⟨history, claimed, gone⟩ := same
  have reached : (supervisorSystem plainRules twoPhases).Reachable System.always site :=
    System.reachable_of_run ⟨fun _ => none, rfl⟩ finish
  obtain ⟨-, -, -, -, blocked⟩ := supervisor_once plainRules twoPhases site reached
  refine ⟨site, reached, history, fun later path => ?_⟩
  rw [blocked 1 (by rw [claimed]; rfl) (isNone_iff_eq_none.mp gone) later path, history]
  rfl

end TinyDSV41.Supervisor
