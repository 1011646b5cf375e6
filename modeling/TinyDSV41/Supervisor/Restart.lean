/-
**Which kills a supervisor recovers from.**

Before it claims a phase the supervisor copies the lease and creates the model guard and the worker
configuration. A later run keeps a whole copy of the lease and a whole setup; it cannot read a torn one,
and `write_new` of the guard, the configuration and the claim raises where the file is already there.

* `steady` — leases are delivered once under their key, and a closed output is left alone.
* `Kept` — what a later run finds of the phases before.
* `restart_launches` — a later run launches an unlaunched phase if and only if it is `Restartable`.
-/

import TinyDSV41.Supervisor.OnceOnly

namespace TinyDSV41.Supervisor

open List Lib Site Event Barrier System.Leads
open Option (isNone_iff_eq_none map_eq_some_iff not_isSome_iff_eq_none)
open Function (update update_of_ne update_self)

variable {Blob : Type} {rules : LeaseRules Blob} {setup : Setup} {site next : Site Blob}
  {index : ℕ} {phase : Phase} {blob : Blob} {digest : String} {stage : Stage} {choice : Choice}

/-! ### Steady runs -/

def Event.closed? : Event → Option ℕ
  | .closed phase _ => some phase
  | _ => none

/-- A lease is delivered once under its key, and an output that was found closed is left alone. -/
def steady (setup : Setup) (site : Site Blob) : Action Blob → Prop
  | .deliver key _ => (site.delivered key).isNone = true
  | .output directory _ => ∀ event ∈ site.history, ∀ index ∈ event.closed?,
      (setup.phases[index]?).map Phase.destination ≠ some directory
  | .start | .advance _ | .kill => True

instance decidableSteady (setup : Setup) (site : Site Blob) :
    (action : Action Blob) → Decidable (steady setup site action)
  | .deliver key _ => inferInstanceAs (Decidable ((site.delivered key).isNone = true))
  | .output directory _ => inferInstanceAs (Decidable (∀ event ∈ site.history,
      ∀ index ∈ event.closed?, (setup.phases[index]?).map Phase.destination ≠ some directory))
  | .start => isTrue trivial
  | .advance _ => isTrue trivial
  | .kill => isTrue trivial

/-- The supervisor runs, and nobody else does anything. -/
def alone (_ : Site Blob) : Action Blob → Prop
  | .start | .advance _ => True
  | _ => False

/-- The lease of a phase is at hand and passes the checks. -/
structure Ready (rules : LeaseRules Blob) (leases : String → Option Blob) (phase : Phase)
    (blob : Blob) : Prop where
  directory : phase.leaseKey ≠ "config.json"
  delivered : leases phase.leaseKey = some blob
  accepted : accepts rules phase blob = true
  suited : suits rules phase blob = true

/-- The stages before the shape of the lease is checked. -/
def Stage.early : Stage → Bool
  | .leasing | .copying | .shaping => true
  | _ => false

/-- What a steady run leaves of the setup, the leases and the closed outputs. -/
structure Kept (rules : LeaseRules Blob) (setup : Setup) (site : Site Blob) : Prop where
  snapshot : ∀ before, site.snapshot = some (.whole before) → before = setup
  copies : ∀ index copy, (site.controls index).lease = some (.whole copy) →
    ∃ phase, setup.phases[index]? = some phase ∧ site.delivered phase.leaseKey = some copy
  closed : ∀ index digest, Event.closed index digest ∈ site.history →
    ∃ phase blob, setup.phases[index]? = some phase ∧ rules.digest blob = digest ∧
      Ready rules site.delivered phase blob ∧ closedWith rules site.outputs phase blob = true
  ended : ∀ index, (site.controls index).finished.isSome = true →
    ∃ digest, Event.closed index digest ∈ site.history
  held : ∀ index blob stage, site.process = some (.holding index blob stage) →
    ∃ phase, setup.phases[index]? = some phase ∧ phase.leaseKey ≠ "config.json" ∧
      site.delivered phase.leaseKey = some blob ∧ accepts rules phase blob = true ∧
      (stage.early = false → suits rules phase blob = true)

theorem Ready.mono {leases later : String → Option Blob} (ready : Ready rules leases phase blob)
    (kept : ∀ key blob, leases key = some blob → later key = some blob) :
    Ready rules later phase blob :=
  ⟨ready.directory, kept _ _ ready.delivered, ready.accepted, ready.suited⟩

/-! ### One step in a phase -/

variable {other : ℕ}

section

variable (performed : site.perform rules index phase blob choice stage = next)
include performed

/-- A whole copy of a lease was there, or is of the lease at hand. -/
theorem perform_lease {copy : Blob} (there : (next.controls other).lease = some (.whole copy)) :
    (site.controls other).lease = some (.whole copy) ∨ other = index ∧ copy = blob := by
  rcases perform_files performed other with same | ⟨here, written⟩
  · rw [same] at there
    exact Or.inl there
  · rw [written] at there
    cases stage with
    | copying =>
      cases there
      exact Or.inr ⟨here, rfl⟩
    | leasing => cases there
    | _ => exact Or.inl there

/-- A record of the end was there, or is created behind the publication. -/
theorem perform_finished (there : (next.controls other).finished.isSome = true) :
    (site.controls other).finished.isSome = true ∨ other = index ∧ stage ∈ [.finishing, .finishFile] := by
  rcases perform_files performed other with same | ⟨here, written⟩
  · rw [same] at there
    exact Or.inl there
  · rw [written] at there
    cases stage with
    | finishing | finishFile => exact Or.inr ⟨here, by decide⟩
    | _ => exact Or.inl there

end

theorem perform_held {found : Blob} {later : Stage}
    (there : (site.perform rules index phase blob choice stage).process = some (.holding other found
      later)) :
    other = index ∧ found = blob ∧
      (later.early = false → stage.early = false ∨ suits rules phase blob = true) := by
  cases stage with
  | excluding => cases there
  | shaping =>
    simp only [perform] at there
    split_ifs at there with suited
    · cases there
      exact ⟨rfl, rfl, fun _ => Or.inr suited⟩
    · cases there
  | leasing =>
    simp only [perform] at there
    repeat' split at there
    all_goals
      cases there <;> exact ⟨rfl, rfl, fun late => by cases late⟩
  | copying =>
    cases there
    exact ⟨rfl, rfl, fun late => by cases late⟩
  | _ =>
    simp only [perform] at there
    repeat' split at there
    all_goals
      cases there <;> exact ⟨rfl, rfl, fun _ => Or.inl rfl⟩

/-! ### Steady runs keep what a later run needs -/

section

variable {place : Option (Place Blob)} (kept : Kept rules setup site)
include kept

theorem Kept.move
    (held : ∀ index blob stage, place = some (.holding index blob stage) → ∃ phase, setup.phases[index]?
      = some phase ∧ phase.leaseKey ≠ "config.json" ∧ site.delivered phase.leaseKey = some blob ∧
      accepts rules phase blob = true ∧ (stage.early = false → suits rules phase blob = true)) :
    Kept rules setup { site with process := place } :=
  ⟨kept.snapshot, kept.copies, fun index digest mem => kept.closed index digest mem,
    kept.ended, held⟩

theorem Kept.leave (leaves : ∀ index blob stage, place ≠ some (.holding index blob stage)) :
    Kept rules setup { site with process := place } :=
  kept.move fun index blob stage there => absurd there (leaves index blob stage)

end

theorem kept_perform (sound : Sound rules setup site) (kept : Kept rules setup site)
    (place : site.process = some (.holding index blob stage))
    (known : setup.phases[index]? = some phase) :
    Kept rules setup (site.perform rules index phase blob choice stage) := by
  obtain ⟨phase', known', directory, delivered, accepted, suited⟩ := kept.held index blob stage place
  obtain rfl := Option.some.inj (known.symm.trans known')
  have performed : site.perform rules index phase blob choice stage = _ := rfl
  obtain ⟨same, -, outputs, snapshot⟩ := perform_frame performed
  have grows := perform_history performed
  refine ⟨?snapshot, ?copies, ?closed, ?ended, ?held⟩
  case snapshot =>
    rw [snapshot]
    exact kept.snapshot
  case copies =>
    intro other copy there
    rw [same]
    rcases perform_lease performed there with before | ⟨rfl, rfl⟩
    · exact kept.copies other copy before
    · exact ⟨phase, known, delivered⟩
  case closed =>
    intro other digest mem
    have before : Event.closed other digest ∈ site.history →
        ∃ phase blob', setup.phases[other]? = some phase ∧ rules.digest blob' = digest ∧
          Ready rules site.delivered phase blob' ∧ closedWith rules site.outputs phase blob' = true :=
      kept.closed other digest
    have ready : (∃ phase blob', setup.phases[other]? = some phase ∧ rules.digest blob' = digest ∧
        Ready rules site.delivered phase blob' ∧ closedWith rules site.outputs phase blob' = true) := by
      rcases grows with quiet | ⟨-, longer⟩ | ⟨clean, longer⟩ | longer
      · exact before (quiet ▸ mem)
      · rw [longer] at mem
        rcases mem_append.mp mem with earlier | now
        · exact before earlier
        · cases mem_singleton.mp now
      · rw [longer] at mem
        rcases mem_append.mp mem with earlier | now
        · exact before earlier
        · cases mem_singleton.mp now
          -- Closures are checked behind the shape of the lease.
          have late : stage.early = false := by
            cases stage with
            | leasing | copying | shaping =>
              exfalso
              simp only [perform] at longer
              repeat' split at longer
              all_goals exact absurd longer.symm (by simp [goto, raises, Site.control])
            | _ => rfl
          exact ⟨phase, blob, known, rfl, ⟨directory, delivered, accepted, suited late⟩, clean⟩
      · rw [longer] at mem
        rcases mem_append.mp mem with earlier | now
        · exact before earlier
        · cases mem_singleton.mp now
    obtain ⟨phase, blob', known, digests, ready, clean⟩ := ready
    exact ⟨phase, blob', known, digests, ready.mono fun key blob there => by rw [same]; exact there,
      by rw [outputs]; exact clean⟩
  case ended =>
    intro other there
    have longer : ∀ event ∈ site.history,
        event ∈ (site.perform rules index phase blob choice stage).history := by
      rcases grows with same | ⟨-, same⟩ | ⟨-, same⟩ | same
      all_goals
        intro event mem
        rw [same]
        first | exact mem | exact mem_append_left _ mem
    rcases perform_finished performed there with before | ⟨rfl, ends⟩
    · obtain ⟨digest, mem⟩ := kept.ended other before
      exact ⟨digest, longer _ mem⟩
    · have placed := sound.placed
      unfold Placed at placed
      rw [place] at placed
      obtain ⟨-, -, held⟩ := placed
      refine ⟨rules.digest blob, longer _ (held.closed ?_)⟩
      rcases mem_cons.mp ends with rfl | ends
      · decide
      · rw [mem_singleton.mp ends]
        decide
  case held =>
    intro other found later there
    obtain ⟨rfl, rfl, shaped⟩ := perform_held there
    refine ⟨phase, known, directory, by rw [same]; exact delivered, accepted, fun late => ?_⟩
    rcases shaped late with before | suits
    · exact suited before
    · exact suits

theorem kept_step {action : Action Blob} (sound : Sound rules setup site)
    (kept : Kept rules setup site) (admitted : steady setup site action)
    (stepped : site.step rules setup action = some next) : Kept rules setup next := by
  cases action with
  | deliver key blob =>
    cases stepped
    have stays : ∀ other found, site.delivered other = some found →
        update site.delivered key (some blob) other = some found := by
      intro other found there
      have fresh : other ≠ key := by
        rintro rfl
        rw [isNone_iff_eq_none.mp admitted] at there
        cases there
      rw [update_of_ne fresh]
      exact there
    refine ⟨kept.snapshot, fun index copy there => ?_, fun index digest mem => ?_, kept.ended,
      fun index found stage there => ?_⟩
    · obtain ⟨phase, known, delivered⟩ := kept.copies index copy there
      exact ⟨phase, known, stays _ _ delivered⟩
    · obtain ⟨phase, found, known, same, ready, clean⟩ := kept.closed index digest mem
      exact ⟨phase, found, known, same, ready.mono stays, clean⟩
    · obtain ⟨phase, known, directory, delivered, accepted, suited⟩ :=
        kept.held index found stage there
      exact ⟨phase, known, directory, stays _ _ delivered, accepted, suited⟩
  | output directory output =>
    cases stepped
    refine ⟨kept.snapshot, kept.copies, fun index digest mem => ?_, kept.ended, kept.held⟩
    obtain ⟨phase, found, known, same, ready, clean⟩ := kept.closed index digest mem
    have elsewhere : phase.destination ≠ directory := by
      intro here
      exact admitted _ mem index rfl (by rw [known, Option.map_some, here])
    refine ⟨phase, found, known, same, ⟨ready.directory, ready.delivered, ready.accepted,
      ready.suited⟩, ?_⟩
    show closedWith rules (update site.outputs directory output) phase found = true
    unfold closedWith at clean ⊢
    rw [update_of_ne elsewhere]
    exact clean
  | start | kill =>
    simp only [step] at stepped
    split_ifs at stepped
    cases stepped
    exact kept.leave (by simp)
  | advance choice =>
    simp only [step, advance] at stepped
    split at stepped
    case h_1 => cases stepped
    case h_2 =>
      split at stepped
      case h_1 =>
        cases stepped
        exact ⟨(by intro _ wrong; cases wrong), kept.copies, kept.closed, kept.ended,
          (by intro _ _ _ wrong; cases wrong)⟩
      case h_2 =>
        cases stepped
        exact kept.leave (by simp)
      case h_3 =>
        split_ifs at stepped
        all_goals
          cases stepped
          exact kept.leave (by simp)
    case h_3 =>
      cases stepped
      refine ⟨fun before whole => ?_, kept.copies, kept.closed, kept.ended,
        (by intro _ _ _ wrong; cases wrong)⟩
      cases whole
      rfl
    case h_4 index place =>
      split at stepped
      case h_1 =>
        cases stepped
        exact kept.leave (by simp)
      case h_2 phase known =>
        by_cases reserved : phase.leaseKey = "config.json"
        · rw [if_pos reserved] at stepped
          cases stepped
          exact kept.leave (by simp)
        rw [if_neg reserved] at stepped
        split at stepped
        case h_1 =>
          split_ifs at stepped
          cases stepped
          exact kept.leave (by simp)
        case h_2 blob delivered =>
          cases stepped
          split_ifs with accepted
          · refine kept.move fun other found stage there => ?_
            cases there
            exact ⟨phase, known, reserved, delivered, accepted, fun late => by cases late⟩
          · exact kept.leave (by simp)
    case h_5 index blob stage place =>
      obtain ⟨phase, known, rfl⟩ := map_eq_some_iff.mp stepped
      exact kept_perform sound kept place known

theorem kept_run (reached : (supervisorSystem rules setup).Reachable (steady setup) site) :
    Sound rules setup site ∧ Kept rules setup site := by
  have known : (Sound rules setup site ∧ Arrived site) ∧ Kept rules setup site := by
    refine reached.invariant
      (fun site => (Sound rules setup site ∧ Arrived site) ∧ Kept rules setup site) ?_ ?_
    · rintro _ ⟨outputs, rfl⟩
      refine ⟨supervisor_sound_run ⟨_, ⟨outputs, rfl⟩, refl _⟩, ?_, ?_, ?_, ?_, ?_⟩
      · exact nofun
      · exact nofun
      · exact fun _ _ wrong => absurd wrong not_mem_nil
      · exact nofun
      · exact nofun
    · intro site action next admitted stepped known
      exact ⟨supervisor_sound_step known.1.1 known.1.2 stepped,
        kept_step known.1.1 known.2 admitted stepped⟩
  exact ⟨known.1.1, known.2⟩

/-! ### A later run -/

/-- The files, the leases, the outputs and the groups are the same. -/
structure SameFiles (before after : Site Blob) : Prop where
  controls : after.controls = before.controls
  delivered : after.delivered = before.delivered
  outputs : after.outputs = before.outputs
  groups : after.sealedGroups = before.sealedGroups

/-- A guard that qualifies, a workflow that starts, and an artifact. -/
def favourable (artifact : Option String) : Choice := ⟨false, true, true, 0, artifact⟩

/-- The runs of one supervisor that nothing else disturbs. -/
abbrev Proceeds (rules : LeaseRules Blob) (setup : Setup) : Site Blob → Site Blob → Prop :=
  (supervisorSystem rules setup).Leads alone

theorem leads_by (action : Action Blob) (admitted : alone site action)
    (stepped : site.step rules setup action = some next) :
    Proceeds rules setup site next := single admitted stepped

theorem leads_stage (choice : Choice) (place : site.process = some (.holding index blob stage))
    (known : setup.phases[index]? = some phase)
    (performed : site.perform rules index phase blob choice stage = next) :
    Proceeds rules setup site next := by
  subst performed
  exact leads_by (.advance choice) trivial (by simp [step, advance, place, known])

theorem leads_entering (place : site.process = some (.entering index))
    (known : setup.phases[index]? = some phase) (ready : Ready rules site.delivered phase blob) :
    Proceeds rules setup site (site.goto (.holding index blob .leasing)) := by
  refine leads_by (.advance (favourable none)) trivial ?_
  simp [step, advance, place, known, ready.directory, ready.delivered, ready.accepted]

theorem leads_opening (gone : site.process = none)
    (snapshot : ∀ before, site.snapshot = some (.whole before) → before = setup)
    (legible : site.snapshot ≠ some .torn) :
    ∃ later, Proceeds rules setup site later ∧ SameFiles site later ∧
      later.process = some (.entering 0) := by
  have started : Proceeds rules setup site (site.goto .opening) := by
    exact leads_by .start trivial (by simp [step, gone])
  cases there : site.snapshot with
  | none =>
    have created : Proceeds rules setup (site.goto .opening)
        ({ site with snapshot := some .torn }.goto .snapshotting) := by
      refine leads_by (.advance (favourable none)) trivial ?_
      simp [step, advance, goto, there]
    have filled : Proceeds rules setup
        ({ site with snapshot := some .torn }.goto .snapshotting)
        ({ site with snapshot := some (.whole setup) }.goto (.entering 0)) := by
      refine leads_by (.advance (favourable none)) trivial ?_
      simp [step, advance, goto]
    exact ⟨_, (started.trans created).trans filled, ⟨rfl, rfl, rfl, rfl⟩, rfl⟩
  | some file =>
    cases file with
    | torn => exact absurd there legible
    | whole before =>
      obtain rfl := snapshot before there
      have read : (supervisorSystem rules before).Leads alone (site.goto .opening)
          ((site.goto .opening).goto (.entering 0)) := by
        refine leads_by (.advance (favourable none)) trivial ?_
        simp [step, advance, goto, there]
      exact ⟨_, started.trans read, ⟨rfl, rfl, rfl, rfl⟩, rfl⟩

section

variable (kept : Kept rules setup site)
  (durable : Durable rules setup site.controls site.history site.sealedGroups)
include kept durable

/-- A later run goes through a finished phase. -/
theorem leads_passed (passed : Passed setup site.controls site.history site.sealedGroups index)
    {start : Site Blob} (files : SameFiles site start) (place : start.process = some (.entering index)) :
    ∃ later, Proceeds rules setup start later ∧ SameFiles site later ∧
      later.process = some (.entering (index + 1)) := by
  obtain ⟨phase, digest, known, finished, closed, -, grouped⟩ := passed
  obtain ⟨artifact, grouped⟩ := Option.isSome_iff_exists.mp grouped
  obtain ⟨phase', blob, known', rfl, ready, clean⟩ := kept.closed index digest closed
  obtain rfl := Option.some.inj (known.symm.trans known')
  obtain ⟨⟨copy, copied, same⟩, -, -⟩ := durable.finished index _ finished
  rw [← files.controls] at finished copied
  rw [← files.delivered] at ready
  rw [← files.outputs] at clean
  rw [← files.groups] at grouped
  have entered : Proceeds rules setup start
      (start.goto (.holding index blob .leasing)) := leads_entering place known ready
  have leased : Proceeds rules setup
      (start.goto (.holding index blob .leasing)) (start.goto (.holding index blob .shaping)) :=
    leads_stage (favourable none) rfl known (by simp [perform, goto, copied, same])
  have shaped : Proceeds rules setup
      (start.goto (.holding index blob .shaping)) (start.goto (.holding index blob .deciding)) :=
    leads_stage (favourable none) rfl known (by simp [perform, goto, ready.suited])
  have decided : Proceeds rules setup
      (start.goto (.holding index blob .deciding)) (start.goto (.holding index blob .verifying)) :=
    leads_stage (favourable none) rfl known (by simp [perform, goto, finished])
  have verified : Proceeds rules setup (start.goto (.holding index blob .verifying))
      ((start.record (.closed index (rules.digest blob))).goto (.holding index blob .republishing)) :=
    leads_stage (favourable none) rfl known (by simp [perform, goto, record, clean])
  have republished : Proceeds rules setup
      ((start.record (.closed index (rules.digest blob))).goto (.holding index blob .republishing))
      (((start.record (.closed index (rules.digest blob))).record
        (.published index (rules.digest blob))).goto (.entering (index + 1))) :=
    leads_stage (favourable (some artifact)) rfl known
      (by simp [perform, publish, goto, record, favourable, grouped])
  exact ⟨_, entered.trans (leased.trans (shaped.trans (decided.trans (verified.trans republished)))),
    ⟨files.controls, files.delivered, files.outputs, files.groups⟩, rfl⟩

theorem leads_to (gone : site.process = none) (legible : site.snapshot ≠ some .torn) (index : ℕ)
    (passed : ∀ earlier < index, Passed setup site.controls site.history site.sealedGroups earlier) :
    ∃ later, Proceeds rules setup site later ∧ SameFiles site later ∧
      later.process = some (.entering index) := by
  induction index with
  | zero =>
    exact leads_opening gone kept.snapshot legible
  | succ index known =>
    obtain ⟨middle, path, same, place⟩ :=
      known fun earlier less => passed earlier (Nat.lt_succ_of_lt less)
    obtain ⟨later, rest, files, after⟩ :=
      leads_passed kept durable (passed index (Nat.lt_succ_self index)) same place
    exact ⟨later, path.trans rest, files, after⟩

end

theorem leads_lease (place : site.process = some (.holding index blob .leasing))
    (known : setup.phases[index]? = some phase)
    (lease : (site.controls index).lease = none ∨
      ∃ copy, (site.controls index).lease = some (.whole copy) ∧ rules.digest copy = rules.digest blob) :
    ∃ later, Proceeds rules setup site later ∧
      later.process = some (.holding index blob .shaping) ∧ later.outputs = site.outputs ∧
      (later.controls index).finished = (site.controls index).finished ∧
      (later.controls index).guard = (site.controls index).guard ∧
      (later.controls index).config = (site.controls index).config ∧
      (later.controls index).claim = (site.controls index).claim := by
  rcases lease with absent | ⟨copy, there, same⟩
  · have created : Proceeds rules setup site
        ((site.control index fun files => { files with lease := some .torn }).goto
          (.holding index blob .copying)) :=
      leads_stage (favourable none) place known (by simp [perform, absent])
    refine ⟨_, created.trans (leads_stage (favourable none) rfl known rfl), rfl, rfl, ?_⟩
    simp [perform, goto, Site.control]
  · exact ⟨site.goto (.holding index blob .shaping),
      leads_stage (favourable none) place known (by simp [perform, there, same]),
      rfl, rfl, rfl, rfl, rfl, rfl⟩

theorem leads_guard (place : site.process = some (.holding index blob .guarding))
    (known : setup.phases[index]? = some phase) (guard : (site.controls index).guard = none) :
    ∃ later, Proceeds rules setup site later ∧
      later.process = some (.holding index blob .configuring) ∧
      (later.controls index).config = (site.controls index).config ∧
      (later.controls index).claim = (site.controls index).claim := by
  have created : Proceeds rules setup site
      ((site.control index fun files => { files with guard := some .torn }).goto
        (.holding index blob .guardFile)) :=
    leads_stage (favourable none) place known (by simp [perform, favourable, guard])
  exact ⟨_, created.trans (leads_stage (favourable none) rfl known rfl), rfl,
    by simp [perform, goto, Site.control], by simp [perform, goto, Site.control]⟩

theorem leads_config (place : site.process = some (.holding index blob .configuring))
    (known : setup.phases[index]? = some phase) (config : (site.controls index).config = none) :
    ∃ later, Proceeds rules setup site later ∧
      later.process = some (.holding index blob .claiming) ∧
      (later.controls index).claim = (site.controls index).claim := by
  have created : Proceeds rules setup site
      ((site.control index fun files => { files with config := some .torn }).goto
        (.holding index blob .configFile)) :=
    leads_stage (favourable none) place known (by simp [perform, config])
  exact ⟨_, created.trans (leads_stage (favourable none) rfl known rfl), rfl,
    by simp [perform, goto, Site.control]⟩

theorem leads_claim (place : site.process = some (.holding index blob .claiming))
    (known : setup.phases[index]? = some phase) (claim : (site.controls index).claim = none) :
    ∃ later, Proceeds rules setup site later ∧
      launched index (rules.digest blob) ∈ later.history := by
  have created : Proceeds rules setup site
      ((site.control index fun files => { files with claim := some .torn }).goto
        (.holding index blob .claimFile)) :=
    leads_stage (favourable none) place known (by simp [perform, claim])
  have filled : Proceeds rules setup
      ((site.control index fun files => { files with claim := some .torn }).goto
        (.holding index blob .claimFile)) _ := leads_stage (favourable none) rfl known rfl
  exact ⟨_, (created.trans filled).trans (leads_stage (favourable none) rfl known rfl),
    by simp [perform, goto, record, favourable]⟩

theorem leads_launch (place : site.process = some (.holding index blob .shaping))
    (known : setup.phases[index]? = some phase) (suited : suits rules phase blob = true)
    (new : phase.existingOutput = none) (nothing : site.outputs phase.destination = none)
    (unfinished : (site.controls index).finished = none) (guard : (site.controls index).guard = none)
    (config : (site.controls index).config = none) (claim : (site.controls index).claim = none) :
    ∃ later, Proceeds rules setup site later ∧
      launched index (rules.digest blob) ∈ later.history := by
  have shaped : Proceeds rules setup site
      (site.goto (.holding index blob .deciding)) :=
    leads_stage (favourable none) place known (by simp [perform, suited])
  have decided : Proceeds rules setup
      (site.goto (.holding index blob .deciding)) (site.goto (.holding index blob .guarding)) :=
    leads_stage (favourable none) rfl known
      (by simp [perform, goto, unfinished, new, claim, nothing])
  have start : (site.goto (.holding index blob .guarding)).process
      = some (.holding index blob .guarding) := rfl
  obtain ⟨guarded, path, place, sameConfig, sameClaim⟩ := leads_guard start known guard
  obtain ⟨configured, more, place, same⟩ := leads_config place known (sameConfig.trans config)
  obtain ⟨later, last, launched⟩ := leads_claim place known (same.trans (sameClaim.trans claim))
  exact ⟨later, (shaped.trans decided).trans (path.trans (more.trans last)), launched⟩

/-! ### Which kills are recovered from -/

/-- A phase is restartable: its control directory can be made, the setup and the copy of the lease are
not torn, and the guard, the configuration and the claim have not been created. -/
structure Restartable (site : Site Blob) (index : ℕ) (phase : Phase) : Prop where
  directory : phase.leaseKey ≠ "config.json"
  snapshot : site.snapshot ≠ some .torn
  lease : (site.controls index).lease ≠ some .torn
  guard : (site.controls index).guard = none
  config : (site.controls index).config = none
  claim : (site.controls index).claim = none

variable {later : Site Blob}

theorem torn_setup_run (torn : site.snapshot = some .torn) (gone : site.process = none)
    (path : (supervisorSystem rules setup).Leads System.always site later) :
    later.history = site.history := by
  refine (path.preserves (fun later => later.history = site.history ∧
    later.snapshot = some .torn ∧ (later.process = none ∨ later.process = some .opening))
    (fun state action next _ stepped known => ?_) ⟨rfl, torn, Or.inl gone⟩).1
  obtain ⟨same, torn, place⟩ := known
  simp only [supervisorSystem] at stepped
  cases action with
  | deliver key blob | output directory output =>
    cases stepped
    exact ⟨same, torn, place⟩
  | start =>
    simp only [step] at stepped
    split_ifs at stepped
    cases stepped
    exact ⟨same, torn, Or.inr rfl⟩
  | kill =>
    simp only [step] at stepped
    split_ifs at stepped
    cases stepped
    exact ⟨same, torn, Or.inl rfl⟩
  | advance choice =>
    rcases place with gone | opens
    · simp [step, advance, gone] at stepped
    · simp only [step, advance, opens, torn] at stepped
      cases stepped
      exact ⟨same, torn, Or.inl rfl⟩

/-- A phase whose control directory cannot be made is never taken up. -/
theorem no_directory_run (known : setup.phases[index]? = some phase)
    (reserved : phase.leaseKey = "config.json") (gone : site.process = none)
    (path : (supervisorSystem rules setup).Leads System.always site later) :
    launchesOf index later.history = launchesOf index site.history := by
  refine (path.preserves (fun later => launchesOf index later.history = launchesOf index site.history ∧
    ∀ blob stage, later.process ≠ some (.holding index blob stage))
    (fun state action next _ stepped held => ?_) ⟨rfl, by simp [gone]⟩).1
  obtain ⟨same, never⟩ := held
  simp only [supervisorSystem] at stepped
  cases action with
  | deliver key blob | output directory output =>
    cases stepped
    exact ⟨same, never⟩
  | start | kill =>
    simp only [step] at stepped
    split_ifs at stepped
    cases stepped
    exact ⟨same, by simp [goto, raises]⟩
  | advance choice =>
    simp only [step, advance] at stepped
    split at stepped
    case h_1 => cases stepped
    case h_2 =>
      repeat' split at stepped
      all_goals
        cases stepped
        exact ⟨same, by simp [goto, raises]⟩
    case h_3 =>
      cases stepped
      exact ⟨same, by simp [goto]⟩
    case h_4 other place =>
      split at stepped
      case h_1 =>
        cases stepped
        exact ⟨same, by simp [raises]⟩
      case h_2 found there =>
        by_cases elsewhere : found.leaseKey = "config.json"
        · rw [if_pos elsewhere] at stepped
          cases stepped
          exact ⟨same, by simp [raises]⟩
        have different : other ≠ index := by
          rintro rfl
          obtain rfl := Option.some.inj (known.symm.trans there)
          exact elsewhere reserved
        repeat' split at stepped
        all_goals
          cases stepped <;> exact ⟨same, by simp [goto, raises, different]⟩
    case h_5 other blob stage place =>
      obtain ⟨found, there, rfl⟩ := map_eq_some_iff.mp stepped
      have different : other ≠ index := by
        rintro rfl
        exact never blob stage place
      exact ⟨(perform_launches rfl fun _ => different).trans same,
        fun blob' later there => different (perform_held there).1.symm⟩

theorem Durable.unlaunched (durable : Durable rules setup site.controls site.history site.sealedGroups)
    (unclaimed : ∀ digest, (site.controls index).claim ≠ some (.whole digest)) :
    launchesOf index site.history = [] := by
  unfold launchesOf
  rw [filter_eq_nil_iff]
  intro event mem launches
  cases event with
  | launched other digest =>
    have here : other = index := by simpa [launch?] using launches
    subst here
    exact unclaimed digest (durable.launched other digest mem)
  | closed other digest | published other digest => simp [launch?] at launches

theorem not_restartable_run (known : setup.phases[index]? = some phase) (gone : site.process = none)
    (blocked : ¬ Restartable site index phase)
    (path : (supervisorSystem rules setup).Leads System.always site later) :
    launchesOf index later.history = launchesOf index site.history := by
  by_cases directory : phase.leaseKey = "config.json"
  · exact no_directory_run known directory gone path
  by_cases snapshot : site.snapshot = some .torn
  · rw [torn_setup_run snapshot gone path]
  by_cases lease : lease.Stands (site.controls index)
  · exact stopped_run lease gone path
  by_cases guard : Barrier.guard.Stands (site.controls index)
  · exact stopped_run guard gone path
  by_cases config : config.Stands (site.controls index)
  · exact stopped_run config gone path
  by_cases claim : claim.Stands (site.controls index)
  · exact stopped_run claim gone path
  · exact absurd ⟨directory, snapshot, lease, not_isSome_iff_eq_none.mp guard,
      not_isSome_iff_eq_none.mp config, not_isSome_iff_eq_none.mp claim⟩ blocked

/-- A restartable phase is launched by a later run. -/
theorem restartable_leads (reached : (supervisorSystem rules setup).Reachable (steady setup) site)
    (gone : site.process = none) (known : setup.phases[index]? = some phase)
    (new : phase.existingOutput = none)
    (earlier : ∀ earlier < index, Passed setup site.controls site.history site.sealedGroups earlier)
    (delivered : site.delivered phase.leaseKey = some blob) (accepted : accepts rules phase blob = true)
    (suited : suits rules phase blob = true) (nothing : site.outputs phase.destination = none)
    (free : Restartable site index phase) :
    ∃ later, (supervisorSystem rules setup).Leads alone site later ∧
      launched index (rules.digest blob) ∈ later.history := by
  obtain ⟨sound, kept⟩ := kept_run reached
  obtain ⟨start, path, files, place⟩ :=
    leads_to kept sound.durable gone free.snapshot index earlier
  have ready : Ready rules start.delivered phase blob :=
    ⟨free.directory, by rw [files.delivered]; exact delivered, accepted, suited⟩
  -- A record of the end would name a closed output.
  have unfinished : (site.controls index).finished = none := by
    rw [← not_isSome_iff_eq_none]
    intro there
    obtain ⟨digest, closed⟩ := kept.ended index there
    obtain ⟨phase', blob', known', -, -, clean⟩ := kept.closed index digest closed
    obtain rfl := Option.some.inj (known.symm.trans known')
    obtain ⟨lease, -, clean⟩ := closedWith_eq_true clean
    rw [nothing] at clean
    cases clean
  have entered : (supervisorSystem rules setup).Leads alone start
      (start.goto (.holding index blob .leasing)) := leads_entering place known ready
  have lease : (start.controls index).lease = none ∨
      ∃ copy, (start.controls index).lease = some (.whole copy) ∧
        rules.digest copy = rules.digest blob := by
    rw [files.controls]
    cases there : (site.controls index).lease with
    | none => exact Or.inl rfl
    | some file =>
      cases file with
      | torn => exact absurd there free.lease
      | whole copy =>
        obtain ⟨phase', known', same⟩ := kept.copies index copy there
        obtain rfl := Option.some.inj (known.symm.trans known')
        obtain rfl := Option.some.inj (same.symm.trans delivered)
        exact Or.inr ⟨copy, rfl, rfl⟩
  have here : (start.goto (.holding index blob .leasing)).process
      = some (.holding index blob .leasing) := rfl
  obtain ⟨copied, more, shaping, outputs, sameFinished, sameGuard, sameConfig, sameClaim⟩ :
      ∃ later, (supervisorSystem rules setup).Leads alone
          (start.goto (.holding index blob .leasing)) later ∧
        later.process = some (.holding index blob .shaping) ∧ later.outputs = start.outputs ∧
        (later.controls index).finished = (start.controls index).finished ∧
        (later.controls index).guard = (start.controls index).guard ∧
        (later.controls index).config = (start.controls index).config ∧
        (later.controls index).claim = (start.controls index).claim :=
    leads_lease here known lease
  rw [files.controls] at sameFinished sameGuard sameConfig sameClaim
  obtain ⟨later, last, launched⟩ := leads_launch shaping known suited new
    (by rw [outputs, files.outputs]; exact nothing) (sameFinished.trans unfinished)
    (sameGuard.trans free.guard) (sameConfig.trans free.config) (sameClaim.trans free.claim)
  exact ⟨later, path.trans (entered.trans (more.trans last)), launched⟩

/-- The first lease arrives, and the supervisor is killed behind a number of its steps. -/
def killedAfter (steps : ℕ) : List (Action Lease) :=
  [.start, .deliver "l0" (sampleLease 0 "first")] ++ replicate steps (.advance going) ++ [.kill]

/-- Killed behind the model guard: the lease is there, nothing is claimed or launched, and no later run
launches the first phase. -/
theorem guard_blocks : ∃ site : Site Lease,
    (supervisorSystem plainRules twoPhases).Reachable (steady twoPhases) site ∧
      site.process = none ∧ site.delivered "l0" = some (sampleLease 0 "first") ∧
      (site.controls 0).lease = some (.whole (sampleLease 0 "first")) ∧
      (site.controls 0).guard = some (.whole ()) ∧ (site.controls 0).claim = none ∧
      site.outputs "o0" = none ∧ site.history = [] ∧
      ∀ later, (supervisorSystem plainRules twoPhases).Leads System.always site later →
        launchesOf 0 later.history = [] := by
  have executed : ((supervisorSystem plainRules twoPhases).run (steady twoPhases)
      (.fresh fun _ => none) (killedAfter 9)).map (fun site => decide (site.process.isNone = true ∧
        site.delivered "l0" = some (sampleLease 0 "first") ∧
        (site.controls 0).lease = some (.whole (sampleLease 0 "first")) ∧
        (site.controls 0).guard = some (.whole ()) ∧ (site.controls 0).claim = none ∧
        (site.outputs "o0").isNone = true ∧ site.history = [])) = some true := by
    decide +kernel
  obtain ⟨site, finish, same⟩ := map_eq_some_iff.mp executed
  obtain ⟨gone, delivered, lease, guard, claim, nothing, history⟩ := of_decide_eq_true same
  have gone : site.process = none := isNone_iff_eq_none.mp gone
  refine ⟨site, System.reachable_of_run ⟨fun _ => none, rfl⟩ finish, gone, delivered, lease, guard,
    claim, isNone_iff_eq_none.mp nothing, history, fun later path => ?_⟩
  have stands : Barrier.guard.Stands (site.controls 0) := by rw [Barrier.Stands, guard]; rfl
  rw [stopped_run stands gone path, history]
  rfl

/-- **Which kills are recovered from.** A supervisor that is gone before the claim of a phase is durable,
with the phases before finished, the lease of the phase delivered and no output: a later run launches
the workflow exactly if the phase is restartable. Otherwise no later run ever does, whatever arrives. -/
theorem restart_launches (rules : LeaseRules Blob) (setup : Setup) (site : Site Blob)
    (reached : (supervisorSystem rules setup).Reachable (steady setup) site)
    (gone : site.process = none) (index : ℕ) (phase : Phase) (blob : Blob)
    (known : setup.phases[index]? = some phase) (new : phase.existingOutput = none)
    (earlier : ∀ earlier < index, Passed setup site.controls site.history site.sealedGroups earlier)
    (delivered : site.delivered phase.leaseKey = some blob) (accepted : accepts rules phase blob = true)
    (suited : suits rules phase blob = true) (nothing : site.outputs phase.destination = none)
    (unclaimed : ∀ digest, (site.controls index).claim ≠ some (.whole digest)) :
    ((∃ later, (supervisorSystem rules setup).Leads alone site later ∧
        launched index (rules.digest blob) ∈ later.history) ↔ Restartable site index phase) ∧
    (¬ Restartable site index phase →
      ∀ later, (supervisorSystem rules setup).Leads System.always site later →
        ∀ digest, launched index digest ∉ later.history) := by
  obtain ⟨sound, -⟩ := kept_run reached
  have never : ¬ Restartable site index phase →
      ∀ later, (supervisorSystem rules setup).Leads System.always site later →
        ∀ digest, launched index digest ∉ later.history := by
    intro blocked later path digest member
    have same := not_restartable_run known gone blocked path
    rw [sound.durable.unlaunched unclaimed] at same
    exact absurd (filter_eq_nil_iff.mp same _ member) (by simp [launch?])
  refine ⟨⟨?launches, ?free⟩, never⟩
  case launches =>
    rintro ⟨later, path, launched⟩
    by_contra blocked
    exact never blocked later (path.mono fun _ _ _ => trivial) _ launched
  case free =>
    exact restartable_leads reached gone known new earlier delivered accepted suited nothing

/-- Killed behind the copy of the lease, the first phase is launched by a later run. -/
theorem restart_launches_copied : ∃ site : Site Lease,
    (supervisorSystem plainRules twoPhases).Reachable (steady twoPhases) site ∧
      (site.controls 0).lease = some (.whole (sampleLease 0 "first")) ∧
      ∃ later, (supervisorSystem plainRules twoPhases).Leads alone site later ∧
        launched 0 "first" ∈ later.history := by
  have executed : ((supervisorSystem plainRules twoPhases).run (steady twoPhases)
      (.fresh fun _ => none) (killedAfter 6)).map (fun site => decide (site.process.isNone = true ∧
        site.delivered "l0" = some (sampleLease 0 "first") ∧ (site.outputs "o0").isNone = true ∧
        site.snapshot = some (.whole twoPhases) ∧
        (site.controls 0).lease = some (.whole (sampleLease 0 "first")) ∧
        (site.controls 0).guard = none ∧ (site.controls 0).config = none ∧
        (site.controls 0).claim = none)) = some true := by
    decide +kernel
  obtain ⟨site, finish, same⟩ := map_eq_some_iff.mp executed
  obtain ⟨gone, delivered, nothing, snapshot, lease, guard, config, claim⟩ := of_decide_eq_true same
  have reached : (supervisorSystem plainRules twoPhases).Reachable (steady twoPhases) site :=
    System.reachable_of_run ⟨fun _ => none, rfl⟩ finish
  obtain ⟨launches, -⟩ := restart_launches plainRules twoPhases site reached
    (isNone_iff_eq_none.mp gone) 0 (samplePhase 0 "l0" "s0" "o0") (sampleLease 0 "first") rfl rfl
    (fun _ less => absurd less (Nat.not_lt_zero _)) delivered (by decide) (by decide)
    (isNone_iff_eq_none.mp nothing) (fun digest => by rw [claim]; simp)
  exact ⟨site, reached, lease, launches.mpr
    ⟨by decide, by rw [snapshot]; simp, by rw [lease]; simp, guard, config, claim⟩⟩

end TinyDSV41.Supervisor
