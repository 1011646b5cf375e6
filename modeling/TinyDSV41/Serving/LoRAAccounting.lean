/-
**What the LoRA controller promises of batches and policies.**

Every step is a move of one call, an admission or a move of the control operation (`step_cases`). The
gate counts the admitted calls, so that an activation finds none; the sampler lock admits one; so every
batch is sampled under the weights it was admitted under, and no request goes to the actor twice.

* `Gated`, `Identified`, `Leased` — the three invariants, and `Gated.step`, `Identified.step`,
  `Leased.step` that every step keeps them.
* `lora_accounts` — the promises, over all runs.
-/

import TinyDSV41.Serving.LoRAController

namespace TinyDSV41.Serving

open List Lib Lib.Threads LoRA Option Bool Batch LoRARules
open Relay (Id sampleId)

/-! ### The moves -/

/-- One move of an admitted call: its next place, the lock, the count and the state behind it, and what
is added to the history. -/
inductive Moves (rules : LoRARules) (lora : LoRA) (thread : ℕ) (batch : Batch) :
    BatchPlace → Option ℕ → ℕ → LoRAPhase → List LoRAEvent → Prop
  | acquire (here : batch.place = .waiting) (free : lora.samplerLock = none) :
      Moves rules lora thread batch .holding (some thread) lora.active lora.phase []
  | refuse (here : batch.place = .holding) (failed : lora.phase = .failed) :
      Moves rules lora thread batch .refused lora.samplerLock lora.active lora.phase []
  | pass (here : batch.place = .holding) (healthy : lora.phase ≠ .failed) :
      Moves rules lora thread batch .ready lora.samplerLock lora.active lora.phase []
  | call (here : batch.place = .ready) :
      Moves rules lora thread batch .calling lora.samplerLock lora.active lora.phase
        [.dispatched thread batch.ids]
  | breaks (here : batch.place = .ready ∨ batch.place = .calling) :
      Moves rules lora thread batch .broken lora.samplerLock lora.active lora.phase [.failed thread]
  | answer (manifest : Manifest) (reply : BatchReply) (here : batch.place = .calling)
      (leased : batch.manifest = some manifest)
      (checked : rules.checkBatch manifest batch.specs reply = true) :
      Moves rules lora thread batch (.sampled reply.results) lora.samplerLock lora.active lora.phase []
  | latch (here : batch.place = .broken) :
      Moves rules lora thread batch .latched lora.samplerLock lora.active .failed []
  | unlock (results : List LoRAResult) (here : batch.place = .sampled results) :
      Moves rules lora thread batch (.returning results) none lora.active lora.phase []
  | raise (here : batch.place = .refused ∨ batch.place = .latched) :
      Moves rules lora thread batch .raising none lora.active lora.phase []
  | mark (here : batch.place = .raising) :
      Moves rules lora thread batch .marked lora.samplerLock lora.active .failed []
  | deliver (results : List LoRAResult) (here : batch.place = .returning results) :
      Moves rules lora thread batch (.over (some results)) lora.samplerLock
        (lora.active - batch.specs.length) lora.phase []
  | abandon (here : batch.place = .marked) :
      Moves rules lora thread batch (.over none) lora.samplerLock
        (lora.active - batch.specs.length) lora.phase []

/-- One move of a control operation that loads nothing. -/
inductive Controls (rules : LoRARules) (lora : LoRA) : LoRAPhase → LoRAControl → Prop
  | start (here : lora.control = .idle) (new : lora.phase = .new) :
      Controls rules lora .loading .starting
  | startEnds (phase : LoRAPhase) (here : lora.control = .starting)
      (ends : phase = lora.phase ∨ phase = .paused ∨ phase = .failed) : Controls rules lora phase .idle
  | activate (manifest : Manifest) (here : lora.control = .idle)
      (admits : lora.admitsManifest rules manifest = true) :
      Controls rules lora lora.phase (.activating manifest)
  | pause (here : lora.control = .idle) (running : lora.phase = .running) :
      Controls rules lora .pausing .pausing
  | drain (here : lora.control = .pausing) (drained : lora.active = 0) :
      Controls rules lora lora.phase .drained
  | drainToClose (here : lora.control = .closing) (drained : lora.active = 0) :
      Controls rules lora lora.phase .stopping
  | pauseFails (here : lora.control = .drained) : Controls rules lora lora.phase .idle
  | paused (here : lora.control = .drained) (healthy : lora.phase ≠ .failed) :
      Controls rules lora .paused .idle
  | resume (here : lora.control = .idle) (paused : lora.phase = .paused) (acked : lora.ack.isSome) :
      Controls rules lora .running .idle
  | close (here : lora.control = .idle) (opened : lora.phase ≠ .closed) :
      Controls rules lora .closing .closing
  | closed (phase : LoRAPhase) (here : lora.control = .stopping)
      (ends : phase = .closed ∨ phase = .failed) : Controls rules lora phase .idle
  | cancelClose (here : lora.control = .closing) : Controls rules lora lora.phase .idle

variable {action : LoRAAction}

section Moves

variable {rules : LoRARules} {lora next : LoRA}

theorem batchStep_cases {thread : ℕ} {batch : Batch}
    (stepped : lora.batchStep rules thread batch action = some next) :
    ∃ place lock active phase events, Moves rules lora thread batch place lock active phase events ∧
      next = { lora with
        phase := phase
        active := active
        samplerLock := lock
        batches := lora.move thread batch place
        log := lora.log ++ events } := by
  cases action with simp only [batchStep] at stepped
  | acquire _ =>
    split at stepped
    · rename_i here free
      cases stepped
      exact ⟨_, _, _, _, _, .acquire here free, by simp⟩
    · cases stepped
  | look _ =>
    split at stepped
    · rename_i here
      split_ifs at stepped with failed
      · cases stepped
        exact ⟨_, _, _, _, _, .refuse here failed, by simp⟩
      · cases stepped
        exact ⟨_, _, _, _, _, .pass here failed, by simp⟩
    · cases stepped
  | dispatch _ now =>
    split at stepped
    · rename_i here
      cases stepped
      unfold dispatch
      split
      · exact ⟨_, _, _, _, _, .call here, rfl⟩
      · exact ⟨_, _, _, _, _, .breaks (Or.inl here), rfl⟩
    · cases stepped
  | reply _ reply =>
    split at stepped
    · rename_i here
      cases stepped
      unfold receive
      split
      · rename_i leased
        split_ifs with checked
        · exact ⟨_, _, _, _, _, .answer _ _ here leased checked, by simp⟩
        · exact ⟨_, _, _, _, _, .breaks (Or.inr here), rfl⟩
      · exact ⟨_, _, _, _, _, .breaks (Or.inr here), rfl⟩
    · cases stepped
  | latch _ =>
    split at stepped
    · rename_i here
      cases stepped
      exact ⟨_, _, _, _, _, .latch here, by simp⟩
    · cases stepped
  | release _ =>
    split at stepped
    · rename_i results here
      cases stepped
      exact ⟨_, _, _, _, _, .unlock results here, by simp⟩
    · rename_i here
      cases stepped
      exact ⟨_, _, _, _, _, .raise (Or.inl here), by simp⟩
    · rename_i here
      cases stepped
      exact ⟨_, _, _, _, _, .raise (Or.inr here), by simp⟩
    · cases stepped
  | mark _ =>
    split at stepped
    · rename_i here
      cases stepped
      exact ⟨_, _, _, _, _, .mark here, by simp⟩
    · cases stepped
  | leave _ =>
    split at stepped
    · rename_i results here
      cases stepped
      exact ⟨_, _, _, _, _, .deliver results here, by simp⟩
    · rename_i here
      cases stepped
      exact ⟨_, _, _, _, _, .abandon here, by simp⟩
    · cases stepped
  | _ => cases stepped

def LoRA.admitted (lora : LoRA) (specs : List Spec) : LoRA := { lora with
  seen := lora.seen ++ specs.map (·.requestId)
  active := lora.active + specs.length
  batches := lora.batches ++ [⟨specs, lora.activeManifest, .waiting⟩] }

/-- Every step is an admission, a move of one call, a move of the control operation, or the end of a
load. -/
theorem step_cases (stepped : lora.step rules action = some next) :
    (∃ specs, checkSpecs specs = true ∧ lora.phase = .running ∧
      (∀ spec ∈ specs, spec.requestId ∉ lora.seen) ∧ next = lora.admitted specs) ∨
    (∃ thread batch place lock active phase events, lora.batches[thread]? = some batch ∧
      Moves rules lora thread batch place lock active phase events ∧
      next = { lora with
        phase := phase
        active := active
        samplerLock := lock
        batches := lora.move thread batch place
        log := lora.log ++ events }) ∨
    (∃ phase control, Controls rules lora phase control ∧ (control = .closing → action = .close) ∧
      next = { lora with phase := phase, control := control }) ∨
    ∃ manifest weights reply, lora.control = .activating manifest ∧
      truthful weights reply = true ∧ next = lora.activated rules manifest weights reply := by
  have call : ∀ {thread : ℕ} {action : LoRAAction},
      ((lora.batches[thread]?).bind fun batch => lora.batchStep rules thread batch action) = some next →
      ∃ thread batch place lock active phase events, lora.batches[thread]? = some batch ∧
        Moves rules lora thread batch place lock active phase events ∧
        next = { lora with
          phase := phase
          active := active
          samplerLock := lock
          batches := lora.move thread batch place
          log := lora.log ++ events } := by
    intro thread action moved
    obtain ⟨batch, there, moved⟩ := bind_eq_some_iff.mp moved
    obtain ⟨place, lock, active, phase, events, moves, same⟩ := batchStep_cases moved
    exact ⟨thread, batch, place, lock, active, phase, events, there, moves, same⟩
  have control : ∀ {phase control}, Controls rules lora phase control →
      (control = .closing → action = .close) →
      ∃ phase' control', Controls rules lora phase' control' ∧ (control' = .closing → action = .close) ∧
        { lora with phase := phase, control := control }
          = { lora with phase := phase', control := control' } :=
    fun controls closes => ⟨_, _, controls, closes, rfl⟩
  cases action with simp only [step] at stepped
  | admitBatch specs now =>
    simp only [admitBatch] at stepped
    split_ifs at stepped with admits
    cases stepped
    exact Or.inl ⟨specs, admits.1, admits.2.2.2.2.1, admits.2.2.2.2.2, rfl⟩
  | acquire | look | dispatch | reply | latch | release | mark | leave => exact Or.inr (Or.inl (call stepped))
  | start =>
    split at stepped
    · rename_i here new
      cases stepped
      exact Or.inr (Or.inr (Or.inl (control (.start here new) fun wrong => by cases wrong)))
    · cases stepped
  | started before after engine =>
    split at stepped
    · rename_i here
      cases stepped
      unfold started
      refine Or.inr (Or.inr (Or.inl ?_))
      split_ifs
      · exact ⟨_, _, .startEnds lora.phase here (Or.inl rfl), nofun, rfl⟩
      · exact ⟨_, _, .startEnds .paused here (Or.inr (Or.inl rfl)), nofun, rfl⟩
      · exact ⟨_, _, .startEnds .failed here (Or.inr (Or.inr rfl)), nofun, rfl⟩
    · cases stepped
  | activate manifest now =>
    split at stepped
    · rename_i here
      split_ifs at stepped with admits
      cases stepped
      exact Or.inr (Or.inr (Or.inl ⟨_, _, .activate manifest here admits.2.1, nofun, rfl⟩))
    · cases stepped
  | activated weights reply =>
    split at stepped
    · rename_i manifest here
      split_ifs at stepped with honest
      cases stepped
      exact Or.inr (Or.inr (Or.inr ⟨manifest, weights, reply, here, honest, rfl⟩))
    · cases stepped
  | pause =>
    split at stepped
    · rename_i here running
      cases stepped
      exact Or.inr (Or.inr (Or.inl (control (.pause here running) fun wrong => by cases wrong)))
    · cases stepped
  | drain =>
    split_ifs at stepped with drained
    split at stepped
    · rename_i here
      cases stepped
      exact Or.inr (Or.inr (Or.inl ⟨_, _, .drain here drained, nofun, rfl⟩))
    · rename_i here
      cases stepped
      exact Or.inr (Or.inr (Or.inl ⟨_, _, .drainToClose here drained, nofun, rfl⟩))
    · cases stepped
  | paused =>
    split at stepped
    · rename_i here
      split_ifs at stepped with failed
      · cases stepped
        exact Or.inr (Or.inr (Or.inl ⟨_, _, .pauseFails here, nofun, rfl⟩))
      · cases stepped
        exact Or.inr (Or.inr (Or.inl (control (.paused here failed) fun wrong => by cases wrong)))
    · cases stepped
  | resume now =>
    split at stepped
    · rename_i here
      split_ifs at stepped with admits
      cases stepped
      refine Or.inr (Or.inr (Or.inl ⟨_, _, .resume here admits.2.1 admits.2.2, nofun, ?_⟩))
      rw [here]
    · cases stepped
  | close =>
    split at stepped
    · rename_i here
      split_ifs at stepped with closed
      cases stepped
      exact Or.inr (Or.inr (Or.inl (control (.close here closed) fun _ => rfl)))
    · cases stepped
  | closed acknowledged =>
    split at stepped
    · rename_i here
      cases stepped
      refine Or.inr (Or.inr (Or.inl ⟨_, _, .closed _ here ?_, nofun, rfl⟩))
      cases acknowledged
      · exact Or.inr rfl
      · exact Or.inl rfl
    · cases stepped
  | cancel =>
    split at stepped
    · rename_i here
      cases stepped
      exact Or.inr (Or.inr (Or.inl ⟨_, _, .pauseFails here, nofun, rfl⟩))
    · rename_i here
      split_ifs at stepped
      cases stepped
      exact Or.inr (Or.inr (Or.inl ⟨_, _, .cancelClose here, nofun, rfl⟩))
    · cases stepped

end Moves

/-! ### The gate and the lock -/

/-- The phases in which no call is admitted any more. -/
def LoRAPhase.settled : LoRAPhase → Bool
  | .new | .loading | .paused | .closed => true
  | _ => false

/-- What the state, the count and the control operation say of each other. -/
def Steady (phase : LoRAPhase) (active : ℕ) (control : LoRAControl) : Prop :=
  (phase.settled = true → active = 0) ∧
  match control with
  | .idle => True
  | .starting => phase = .loading
  | .activating _ => phase = .paused
  | .pausing => phase = .pausing ∨ phase = .failed
  | .drained => (phase = .pausing ∨ phase = .failed) ∧ active = 0
  | .closing => phase = .closing ∨ phase = .failed
  | .stopping => (phase = .closing ∨ phase = .failed) ∧ active = 0

/-- The lock admits one call, and the gate counts the admitted ones. -/
structure Gated (lora : LoRA) : Prop where
  lock : Locked (fun batch : Batch => batch.place.locked = true) lora.batches lora.samplerLock
  gate : Counted weight lora.batches lora.active
  sized : Each (fun _ batch => 0 < batch.specs.length) lora.batches
  steady : Steady lora.phase lora.active lora.control

variable {specs : List Spec}

section Gated

variable {rules : LoRARules} {lora next : LoRA} {phase : LoRAPhase} {active : ℕ} {control : LoRAControl}

theorem Steady.fail (steady : Steady phase active control) (inside : active ≠ 0) :
    Steady .failed active control := by
  refine ⟨nofun, ?_⟩
  obtain ⟨settled, holds⟩ := steady
  cases control with
  | idle => trivial
  | starting | activating => exact absurd (settled (by rw [holds]; rfl)) inside
  | pausing | closing => exact Or.inr rfl
  | drained | stopping => exact absurd holds.2 inside

theorem Steady.drop {active' : ℕ} (steady : Steady phase active control) (fewer : active' ≤ active) :
    Steady phase active' control := by
  obtain ⟨settled, holds⟩ := steady
  refine ⟨fun quiet => by have := settled quiet; omega, ?_⟩
  cases control with
  | drained | stopping => exact ⟨holds.1, by have := holds.2; omega⟩
  | idle | starting | activating _ | pausing | closing => exact holds

theorem Steady.idle (steady : Steady .running active control) : control = .idle := by
  obtain ⟨-, holds⟩ := steady
  cases control with
  | idle => rfl
  | starting | activating => cases holds
  | pausing | closing => rcases holds with wrong | wrong <;> cases wrong
  | drained | stopping => rcases holds.1 with wrong | wrong <;> cases wrong

theorem Steady.controls {phase' : LoRAPhase} {control' : LoRAControl}
    (steady : Steady lora.phase lora.active lora.control)
    (controls : Controls rules lora phase' control') : Steady phase' lora.active control' := by
  obtain ⟨settled, holds⟩ := steady
  cases controls with
  | start here new => exact ⟨fun _ => settled (by rw [new]; rfl), rfl⟩
  | startEnds _ here ends =>
    rw [here] at holds
    have none_ := settled (by rw [holds]; rfl)
    exact ⟨fun _ => none_, trivial⟩
  | activate manifest here admits =>
    simp only [admitsManifest, and_eq_true, decide_eq_true_eq] at admits
    exact ⟨settled, admits.1.1.1.1.1⟩
  | pause | close => exact ⟨nofun, Or.inl rfl⟩
  | drain here drained | drainToClose here drained =>
    rw [here] at holds
    exact ⟨settled, holds, drained⟩
  | pauseFails | cancelClose => exact ⟨settled, trivial⟩
  | paused here healthy | closed _ here ends =>
    rw [here] at holds
    exact ⟨fun _ => holds.2, trivial⟩
  | resume here paused acked => exact ⟨nofun, trivial⟩

theorem checkSpecs_length (checked : checkSpecs specs = true) : 0 < specs.length := by
  simp only [checkSpecs, and_eq_true, decide_eq_true_eq] at checked
  exact checked.1.1.1

theorem checkSpecs_nodup (checked : checkSpecs specs = true) : (specs.map (·.requestId)).Nodup := by
  simp only [checkSpecs, and_eq_true, decide_eq_true_eq] at checked
  exact checked.2

variable {batch : Batch}

theorem Batch.weight_admitted (admitted : batch.place.admitted = true) :
    batch.weight = batch.specs.length := if_pos admitted

theorem Gated.inside (gated : Gated lora) {thread : ℕ}
    (there : lora.batches[thread]? = some batch) (admitted : batch.place.admitted = true) :
    lora.active ≠ 0 := by
  have counted := gated.gate.le there
  have sized := gated.sized thread batch there
  rw [weight_admitted admitted] at counted
  omega

theorem Gated.outside (gated : Gated lora) (empty : lora.active = 0) {thread : ℕ}
    (there : lora.batches[thread]? = some batch) : batch.place.admitted = false := by
  by_contra admitted
  exact gated.inside there (not_eq_false _ ▸ admitted) empty

theorem Gated.fresh : Gated fresh where
  lock := Locked.nil
  gate := Counted.nil
  sized := Each.nil
  steady := ⟨fun _ => rfl, trivial⟩

theorem Gated.step (gated : Gated lora) (stepped : lora.step rules action = some next) : Gated next := by
  rcases step_cases stepped with ⟨specs, checked, running, -, rfl⟩ |
    ⟨thread, batch, place, lock, active, phase, events, there, moves, rfl⟩ |
    ⟨phase, control, controls, -, rfl⟩ | ⟨manifest, weights, reply, here, -, rfl⟩
  · have steady := gated.steady
    rw [running] at steady
    refine ⟨gated.lock.spawn nofun, gated.gate.spawn, gated.sized.spawn (checkSpecs_length checked), ?_⟩
    change Steady lora.phase _ lora.control
    rw [running, steady.idle]
    exact ⟨nofun, trivial⟩
  · have sized : Each (fun _ batch => 0 < batch.specs.length) (lora.move thread batch place) :=
      gated.sized.move (gated.sized thread batch there)
    -- A move that stays inside the gate and changes nothing else.
    have stays : ∀ {place'}, batch.place.admitted = true → place'.admitted = true →
        Counted weight (lora.move thread batch place') lora.active := fun inside inside' =>
      gated.gate.move there (by rw [weight_admitted inside]; exact congrArg _ (if_pos inside').symm)
    have leaves : ∀ {results}, batch.place.admitted = true →
        Counted weight (lora.move thread batch (.over results))
          (lora.active - batch.specs.length) := fun inside => by
      have counted := gated.gate.le there
      refine gated.gate.move there ?_
      rw [weight_admitted inside] at counted ⊢
      change _ = lora.active + 0
      omega
    have inside := gated.inside there
    cases moves with
    | acquire here free =>
      have unlocked := gated.lock
      rw [free] at unlocked
      exact ⟨unlocked.enter there rfl, stays (by rw [here]; rfl) rfl, sized, gated.steady⟩
    | refuse here _ | pass here _ | call here | answer manifest reply here _ _ =>
      exact ⟨gated.lock.stay there (by rw [here]; exact Iff.rfl), stays (by rw [here]; rfl) rfl, sized,
        gated.steady⟩
    | breaks here =>
      rcases here with here | here <;>
        exact ⟨gated.lock.stay there (by rw [here]; exact Iff.rfl), stays (by rw [here]; rfl) rfl,
          sized, gated.steady⟩
    | latch here | mark here =>
      exact ⟨gated.lock.stay there (by rw [here]; exact Iff.rfl), stays (by rw [here]; rfl) rfl, sized,
        gated.steady.fail (inside (by rw [here]; rfl))⟩
    | unlock results here =>
      exact ⟨gated.lock.leave there (by rw [here]; rfl) nofun,
        stays (by rw [here]; rfl) rfl, sized, gated.steady⟩
    | raise here =>
      rcases here with here | here <;>
        exact ⟨gated.lock.leave there (by rw [here]; rfl) nofun,
          stays (by rw [here]; rfl) rfl, sized, gated.steady⟩
    | deliver results here | abandon here =>
      exact ⟨gated.lock.stay there (by rw [here]; exact Iff.rfl), leaves (by rw [here]; rfl), sized,
        gated.steady.drop (Nat.sub_le _ _)⟩
  · exact ⟨gated.lock, gated.gate, gated.sized, gated.steady.controls controls⟩
  · obtain ⟨settled, paused⟩ := gated.steady
    rw [here] at paused
    have none_ := settled (by rw [paused]; rfl)
    unfold LoRA.activated
    split_ifs
    all_goals exact ⟨gated.lock, gated.gate, gated.sized, fun _ => none_, trivial⟩

end Gated

/-! ### Request identities -/

/-- The requests that an event hands to the actor. -/
def LoRAEvent.ids : LoRAEvent → List Id
  | .dispatched _ ids => ids
  | _ => []

/-- The requests handed to the actor, in order. -/
def LoRA.dispatched (lora : LoRA) : List Id := lora.log.flatMap LoRAEvent.ids

def BatchPlace.early : BatchPlace → Bool
  | .waiting | .holding | .ready => true
  | _ => false

/-- Every request belongs to one call, and is handed over by it at most once. -/
def Identified (lora : LoRA) : Prop :=
  Once (fun batch : Batch => batch.place.early = true) ids lora.batches lora.seen lora.dispatched

section Identified

variable {rules : LoRARules} {lora next : LoRA} {thread : ℕ} {batch : Batch} {place : BatchPlace}

theorem Identified.fresh_controller : Identified fresh := Once.nil

theorem Identified.move (identified : Identified lora) (there : lora.batches[thread]? = some batch)
    (later : place.early = true → batch.place.early = true) {events : List LoRAEvent}
    (nothing : events.flatMap LoRAEvent.ids = []) {phase : LoRAPhase} {lock : Option ℕ} {active : ℕ} :
    Identified { lora with
      phase := phase
      active := active
      samplerLock := lock
      batches := lora.move thread batch place
      log := lora.log ++ events } := by
  unfold Identified dispatched
  rw [flatMap_append, nothing, append_nil]
  exact Once.move identified there rfl later

theorem Identified.call (identified : Identified lora) (there : lora.batches[thread]? = some batch)
    (here : batch.place = .ready) :
    Identified { lora with
      batches := lora.move thread batch .calling
      log := lora.log ++ [.dispatched thread batch.ids] } := by
  have grown : (lora.log ++ [LoRAEvent.dispatched thread batch.ids]).flatMap LoRAEvent.ids
      = lora.dispatched ++ batch.ids := by
    rw [flatMap_append]
    exact congrArg _ (append_nil _)
  unfold Identified dispatched
  rw [grown]
  exact Once.serve identified there (by rw [here]; rfl) nofun

theorem Identified.step (identified : Identified lora) (stepped : lora.step rules action = some next) :
    Identified next := by
  rcases step_cases stepped with ⟨specs, checked, -, new, rfl⟩ |
    ⟨thread, batch, place, lock, active, phase, events, there, moves, rfl⟩ |
    ⟨phase, control, -, -, rfl⟩ | ⟨manifest, weights, reply, here, -, rfl⟩
  · have unseen : ∀ id ∈ specs.map (·.requestId), id ∉ lora.seen := by
      intro id mem
      obtain ⟨spec, own, rfl⟩ := mem_map.mp mem
      exact new spec own
    exact Once.spawn identified (checkSpecs_nodup checked) unseen
  · cases moves with
    | acquire here _ | refuse here _ | pass here _ => exact identified.move there (fun _ => by rw [here]; rfl) rfl
    | call here => exact identified.call there here
    | breaks _ | answer _ _ _ _ _ | latch _ | unlock _ _ | raise _ | mark _ | deliver _ _ | abandon _ =>
      exact identified.move there (fun wrong => by cases wrong) rfl
  · exact identified
  · unfold LoRA.activated
    split_ifs
    · have same : (lora.log ++ [LoRAEvent.activated manifest]).flatMap LoRAEvent.ids
          = lora.dispatched := by
        rw [flatMap_append]
        exact append_nil _
      unfold Identified dispatched
      rw [same]
      exact identified
    · exact identified

end Identified

/-! ### Policies -/

/-- The manifest that an event activates. -/
def LoRAEvent.activated? : LoRAEvent → Option Manifest
  | .activated manifest => some manifest
  | _ => none

/-- The manifests activated so far, in order. -/
def LoRA.activations (lora : LoRA) : List Manifest := lora.log.filterMap LoRAEvent.activated?

/-- The phases from which a controller can still come to an activation. -/
def LoRAPhase.live : LoRAPhase → Bool
  | .new | .loading | .paused | .running | .pausing => true
  | _ => false

def nextVersion : Option PolicyAck → ℕ
  | none => 0
  | some last => last.version + 1

def BatchPlace.results? : BatchPlace → Option (List LoRAResult)
  | .sampled results | .returning results => some results
  | .over results => results
  | _ => none

/-- The results are bound to the policy and the adapter of the manifest. -/
def Manifest.binds (manifest : Manifest) (results : List LoRAResult) : Prop :=
  ∀ result ∈ results, result.policyAck = some manifest.policyAck ∧
    result.adapterRequestId = some manifest.adapterId

/-- The activations follow each other: versions from zero on, one lineage, and no adapter twice. -/
structure Follows (activations : List Manifest) (ack : Option PolicyAck) (adapters : List ℕ) :
    Prop where
  versions : activations.map (·.version) = range activations.length
  lineage : ∀ first ∈ activations, ∀ second ∈ activations, first.lineage = second.lineage
  current : ∀ last ∈ ack, ∀ manifest ∈ activations, manifest.lineage = last.lineage
  used : adapters = activations.map (·.adapterId)
  once : adapters.Nodup

/-- What `activate` has checked of a manifest, behind these activations. -/
structure Continues (manifest : Manifest) (ack : Option PolicyAck) (adapters : List ℕ) : Prop where
  version : manifest.version = nextVersion ack
  unused : manifest.adapterId ∉ adapters
  lineage : ∀ last ∈ ack, manifest.lineage = last.lineage

variable {manifest : Manifest}
variable {activations : List Manifest}

section

variable {ack : Option PolicyAck} {used : List ℕ} (follows : Follows activations ack used)
include follows

theorem Follows.extend (count : nextVersion ack = activations.length)
    (continues : Continues manifest ack used) :
    Follows (activations ++ [manifest]) (some manifest.policyAck) (used ++ [manifest.adapterId]) := by
  have same : ∀ first ∈ activations, first.lineage = manifest.lineage := by
    intro first mem
    cases ack with
    | none =>
      rw [eq_nil_of_length_eq_zero count.symm] at mem
      cases mem
    | some ack => exact (follows.current ack rfl first mem).trans (continues.lineage ack rfl).symm
  have all : ∀ first ∈ activations ++ [manifest], first.lineage = manifest.lineage := by
    intro first mem
    rcases mem_append.mp mem with before | new
    · exact same first before
    · rw [mem_singleton.mp new]
  refine ⟨?_, fun first here second there => (all first here).trans (all second there).symm, ?_, ?_, ?_⟩
  · rw [map_append, follows.versions, length_append, length_singleton, range_succ,
      ← count, ← continues.version]
    rfl
  · rintro last same first mem
    cases same
    exact all first mem
  · rw [follows.used, map_append]
    rfl
  · refine nodup_append.mpr ⟨follows.once, nodup_singleton _, ?_⟩
    rintro adapter before _ new rfl
    exact continues.unused (mem_singleton.mp new ▸ before)

theorem Follows.forget : Follows activations none used :=
  ⟨follows.versions, follows.lineage, nofun, follows.used, follows.once⟩

end

/-- The weights of the actor are those of the acknowledged policy, under which every admitted call was
leased. -/
structure Leased (lora : LoRA) : Prop where
  leased : Each (fun _ batch => batch.place.admitted = true →
    ∃ manifest, batch.manifest = some manifest ∧ lora.weights = some manifest.weights) lora.batches
  bound : Each (fun _ batch => ∀ results ∈ batch.place.results?,
    ∃ manifest, batch.manifest = some manifest ∧ manifest.binds results) lora.batches
  current : ∀ ack ∈ lora.ack, ∃ manifest, lora.activeManifest = some manifest ∧
    ack = manifest.policyAck ∧ lora.weights = some manifest.weights
  acked : lora.phase = .running → lora.ack.isSome
  follows : Follows lora.activations lora.ack lora.usedAdapterIds
  following : lora.phase.live = true → nextVersion lora.ack = lora.activations.length
  loading : ∀ manifest, lora.control = .activating manifest →
    Continues manifest lora.ack lora.usedAdapterIds

section Leased

variable {rules : LoRARules} {lora next : LoRA} {thread : ℕ} {batch : Batch} {place : BatchPlace}

theorem Leased.fresh : Leased fresh where
  leased := Each.nil
  bound := Each.nil
  current := nofun
  acked := nofun
  follows := ⟨rfl, nofun, nofun, rfl, nodup_nil⟩
  following := fun _ => rfl
  loading := nofun

theorem checkBatch_binds {reply : BatchReply} (checked : rules.checkBatch manifest specs reply = true) :
    manifest.binds reply.results := by
  simp only [checkBatch, and_eq_true, decide_eq_true_eq] at checked
  obtain ⟨⟨⟨⟨-, length⟩, all⟩, -⟩, -⟩ := checked
  intro result mem
  obtain ⟨index, inside, rfl⟩ := mem_iff_getElem.mp mem
  have short : index < specs.length := length ▸ inside
  have one := all_eq_true.mp all ((specs[index], reply.results[index]), index) (by
    refine mem_iff_getElem?.mpr ⟨index, ?_⟩
    simp [short, inside])
  simp only [checkResult, and_eq_true, decide_eq_true_eq] at one
  exact ⟨one.1.1.1.1.1.1.1, one.1.1.1.1.1.1.2⟩

variable {weights : Option (PolicyAck × ℕ)}

theorem checkLoad_weights {reply : LoadReply} (checked : rules.checkLoad reply manifest = true)
    (honest : truthful weights (some reply) = true) : weights = some manifest.weights := by
  simp only [checkLoad, checkEngine, all_some, and_eq_true,
    decide_eq_true_eq] at checked
  simp only [truthful, all_some, and_eq_true, decide_eq_true_eq] at honest
  obtain ⟨⟨⟨⟨⟨-, ⟨loaded, adapter⟩, -⟩, -⟩, -⟩, -⟩, -⟩ := checked
  rw [honest.1] at loaded
  rw [honest.2] at adapter
  cases weights with
  | none => cases loaded
  | some weights =>
    obtain ⟨ack, adapterId⟩ := weights
    cases loaded
    cases adapter
    rfl

theorem admitsManifest_continues (admits : lora.admitsManifest rules manifest = true) :
    Continues manifest lora.ack lora.usedAdapterIds := by
  simp only [admitsManifest, and_eq_true, decide_eq_true_eq] at admits
  obtain ⟨⟨⟨⟨⟨-, -⟩, version⟩, fresh⟩, lineage⟩, -⟩ := admits
  refine ⟨version, fresh, fun ack same => ?_⟩
  rw [mem_def.mp same] at lineage
  exact of_decide_eq_true lineage

section

variable (leases : Leased lora)
include leases

theorem Leased.spawn (specs : List Spec) (running : lora.phase = .running) :
    Leased (lora.admitted specs) := by
  refine ⟨leases.leased.spawn fun _ => ?_, leases.bound.spawn nofun,
    leases.current, leases.acked, leases.follows, leases.following, leases.loading⟩
  obtain ⟨ack, acked⟩ := isSome_iff_exists.mp (leases.acked running)
  obtain ⟨manifest, active, -, loaded⟩ := leases.current ack acked
  exact ⟨manifest, active, loaded⟩

theorem Leased.move (there : lora.batches[thread]? = some batch) (admitted : batch.place.admitted = true)
    (results : ∀ results ∈ place.results?, ∃ manifest, batch.manifest = some manifest ∧ manifest.binds
      results) {events : List LoRAEvent} (nothing : events.filterMap LoRAEvent.activated? = [])
    {phase : LoRAPhase} (stops : phase = lora.phase ∨ phase = .failed) {lock : Option ℕ} {active : ℕ} :
    Leased { lora with
      phase := phase
      active := active
      samplerLock := lock
      batches := lora.move thread batch place
      log := lora.log ++ events } := by
  have same : (lora.log ++ events).filterMap LoRAEvent.activated? = lora.activations := by
    rw [filterMap_append, nothing, append_nil]
    rfl
  refine ⟨leases.leased.move fun _ => leases.leased thread batch there admitted,
    leases.bound.move results, leases.current, fun running => ?_, ?_, fun live => ?_, leases.loading⟩
  · rcases stops with here | here
    · exact leases.acked (here.symm.trans running)
    · rw [here] at running
      cases running
  · change Follows ((lora.log ++ events).filterMap LoRAEvent.activated?) lora.ack lora.usedAdapterIds
    rw [same]
    exact leases.follows
  · change nextVersion lora.ack = ((lora.log ++ events).filterMap LoRAEvent.activated?).length
    rw [same]
    rcases stops with here | here
    · exact leases.following (here ▸ live)
    · rw [here] at live
      cases live

/-- A control operation that loads nothing. -/
theorem Leased.controls (gated : Gated lora) {phase : LoRAPhase} {control : LoRAControl}
    (controls : Controls rules lora phase control) :
    Leased { lora with phase := phase, control := control } := by
  have keep : (phase = .running → lora.ack.isSome) →
      (phase.live = true → nextVersion lora.ack = lora.activations.length) →
      (∀ manifest, control = .activating manifest → Continues manifest lora.ack lora.usedAdapterIds) →
      Leased { lora with phase := phase, control := control } := fun acked following loading =>
    ⟨leases.leased, leases.bound, leases.current, acked, leases.follows, following, loading⟩
  obtain ⟨-, holds⟩ := gated.steady
  cases controls with
  | start here new =>
    exact keep nofun (fun _ => leases.following (by rw [new]; rfl)) nofun
  | startEnds _ here ends =>
    rw [here] at holds
    refine keep (fun running => ?_) (fun _ => leases.following (by rw [holds]; rfl))
      nofun
    rcases ends with same | same | same
    · rw [running, holds] at same
      cases same
    all_goals
      rw [running] at same
      cases same
  | activate manifest here admits =>
    refine keep leases.acked leases.following fun other same => ?_
    cases same
    exact admitsManifest_continues admits
  | pause here running =>
    exact keep nofun (fun _ => leases.following (by rw [running]; rfl)) nofun
  | drain here _ | drainToClose here _ | pauseFails | cancelClose =>
    exact keep leases.acked leases.following nofun
  | paused here healthy =>
    rw [here] at holds
    have pausing : lora.phase = .pausing := holds.1.resolve_right healthy
    exact keep nofun (fun _ => leases.following (by rw [pausing]; rfl)) nofun
  | resume here paused acked =>
    exact keep (fun _ => acked) (fun _ => leases.following (by rw [paused]; rfl))
      nofun
  | close here _ =>
    exact keep nofun nofun
      nofun
  | closed _ here ends =>
    refine keep (fun running => ?_) (fun live => ?_) nofun
    · rcases ends with same | same <;> rw [running] at same <;> cases same
    · rcases ends with same | same <;> rw [same] at live <;> cases live

/-- The end of a load, when no call is admitted. -/
theorem Leased.activated (gated : Gated lora) {reply : Option LoadReply}
    (here : lora.control = .activating manifest) (honest : truthful weights reply = true) :
    Leased (lora.activated rules manifest weights reply) := by
  obtain ⟨settled, paused⟩ := gated.steady
  rw [here] at paused
  have empty := settled (by rw [paused]; rfl)
  have outside : ∀ weights : Option (PolicyAck × ℕ), Each (fun _ batch => batch.place.admitted = true →
      ∃ manifest, batch.manifest = some manifest ∧ weights = some manifest.weights) lora.batches := by
    intro weights thread batch there admitted
    rw [gated.outside empty there] at admitted
    cases admitted
  have continues := leases.loading manifest here
  have count := leases.following (by rw [paused]; rfl)
  unfold LoRA.activated
  split_ifs with checked
  · obtain ⟨answer, rfl, passed⟩ := (any_eq_true _ _).mp checked
    have grown : (lora.log ++ [LoRAEvent.activated manifest]).filterMap LoRAEvent.activated?
        = lora.activations ++ [manifest] := by
      rw [filterMap_append]
      rfl
    refine ⟨outside _, leases.bound, ?_, fun _ => rfl, ?_, fun _ => ?_, nofun⟩
    · rintro ack same
      cases same
      exact ⟨manifest, rfl, rfl, checkLoad_weights passed honest⟩
    · change Follows ((lora.log ++ [LoRAEvent.activated manifest]).filterMap LoRAEvent.activated?) _ _
      rw [grown]
      exact leases.follows.extend count continues
    · change manifest.version + 1
        = ((lora.log ++ [LoRAEvent.activated manifest]).filterMap LoRAEvent.activated?).length
      rw [grown, length_append, length_singleton, continues.version, count]
  · exact ⟨outside _, leases.bound, nofun, nofun, leases.follows.forget, nofun, nofun⟩

theorem Leased.step (gated : Gated lora) (stepped : lora.step rules action = some next) : Leased next := by
  rcases step_cases stepped with ⟨specs, -, running, -, rfl⟩ |
    ⟨thread, batch, place, lock, active, phase, events, there, moves, rfl⟩ |
    ⟨phase, control, controls, -, rfl⟩ | ⟨manifest, weights, reply, here, honest, rfl⟩
  · exact leases.spawn specs running
  · cases moves with
    | acquire here _ | refuse here _ | pass here _ | call here | abandon here =>
      exact leases.move there (by rw [here]; rfl) (fun _ wrong => by cases wrong) rfl (Or.inl rfl)
    | breaks here | raise here =>
      rcases here with here | here <;>
        exact leases.move there (by rw [here]; rfl) (fun _ wrong => by cases wrong) rfl (Or.inl rfl)
    | answer manifest reply here leased checked =>
      refine leases.move there (by rw [here]; rfl) ?_ rfl (Or.inl rfl)
      rintro results same
      cases same
      exact ⟨manifest, leased, checkBatch_binds checked⟩
    | latch here | mark here =>
      exact leases.move there (by rw [here]; rfl) (fun _ wrong => by cases wrong) rfl (Or.inr rfl)
    | unlock results here | deliver results here =>
      refine leases.move there (by rw [here]; rfl) (fun _ same => ?_) rfl (Or.inl rfl)
      exact leases.bound thread batch there _ (by rw [here]; exact same)
  · exact leases.controls gated controls
  · exact leases.activated gated here honest

end

end Leased

/-! ### All runs -/

section Runs

variable {rules : LoRARules} {lora next : LoRA} {guard : LoRA → LoRAAction → Prop}

theorem lora_sound (reached : (loraSystem rules).Reachable guard lora) :
    Gated lora ∧ Identified lora ∧ Leased lora := by
  refine reached.invariant (fun lora => Gated lora ∧ Identified lora ∧ Leased lora) ?_ ?_
  · rintro start rfl
    exact ⟨Gated.fresh, Identified.fresh_controller, Leased.fresh⟩
  · rintro before action after - stepped ⟨gated, identified, leased⟩
    exact ⟨gated.step stepped, identified.step stepped, leased.step gated stepped⟩

theorem batch_leads {later : LoRA} (path : (loraSystem rules).Leads guard lora later) {thread : ℕ}
    {batch : Batch} (there : lora.batches[thread]? = some batch) :
    ∃ batch', later.batches[thread]? = some batch' ∧ batch'.specs = batch.specs ∧
      batch'.manifest = batch.manifest := by
  refine path.preserves (fun later => ∃ batch', later.batches[thread]? = some batch' ∧
    batch'.specs = batch.specs ∧ batch'.manifest = batch.manifest) ?_ ⟨batch, there, rfl, rfl⟩
  rintro before action after - stepped ⟨found, here, specs, manifest⟩
  rcases step_cases stepped with ⟨_, -, -, -, rfl⟩ | ⟨other, moved, place, _, _, _, _, at_, -, rfl⟩ |
    ⟨_, _, -, -, rfl⟩ | ⟨_, _, _, -, -, rfl⟩
  · exact ⟨found, spawn_old here, specs, manifest⟩
  · by_cases same : thread = other
    · subst same
      rw [here] at at_
      cases at_
      exact ⟨_, move_self here, specs, manifest⟩
    · exact ⟨found, (move_other same).trans here, specs, manifest⟩
  · exact ⟨found, here, specs, manifest⟩
  · refine ⟨found, ?_, specs, manifest⟩
    unfold LoRA.activated
    split_ifs
    · exact here
    · exact here

end Runs

/-- Over every run: no request is handed to the actor twice; the activated versions are 0, 1, 2, … in
order, no adapter is activated twice, and all activations have one lineage; while an activation is in
progress no admitted call is left; every batch at the actor is sampled under the weights of the manifest
that its call was admitted under and keeps; and all results are bound to that manifest. -/
theorem lora_accounts (rules : LoRARules) (lora : LoRA)
    (reached : (loraSystem rules).Reachable System.always lora) :
    lora.dispatched.Nodup ∧
    (lora.activations.map (·.version) = range lora.activations.length ∧
      (lora.activations.map (·.adapterId)).Nodup ∧
      ∀ first ∈ lora.activations, ∀ second ∈ lora.activations, first.lineage = second.lineage) ∧
    (∀ manifest, lora.control = .activating manifest →
      ∀ batch ∈ lora.batches, batch.place.admitted = false) ∧
    (∀ (thread : ℕ) (batch : Batch), lora.batches[thread]? = some batch → (batch.place = .calling →
        ∃ manifest, batch.manifest = some manifest ∧ lora.weights = some manifest.weights) ∧
      (∀ results ∈ batch.place.results?,
        ∃ manifest, batch.manifest = some manifest ∧ manifest.binds results) ∧
      ∀ later, (loraSystem rules).Leads System.always lora later →
        ∃ batch', later.batches[thread]? = some batch' ∧ batch'.specs = batch.specs ∧
          batch'.manifest = batch.manifest) := by
  obtain ⟨gated, identified, leases⟩ := lora_sound reached
  refine ⟨identified.once, ⟨leases.follows.versions, ?_, leases.follows.lineage⟩, ?_, ?_⟩
  · rw [← leases.follows.used]
    exact leases.follows.once
  · intro manifest here batch member
    obtain ⟨settled, paused⟩ := gated.steady
    rw [here] at paused
    obtain ⟨thread, there⟩ := mem_iff_getElem?.mp member
    exact gated.outside (settled (by rw [paused]; rfl)) there
  · intro thread batch there
    refine ⟨fun calling => ?_, leases.bound thread batch there, fun later path => batch_leads path there⟩
    exact leases.leased thread batch there (by rw [calling]; rfl)

/-! ### One device and one batch -/

def oneBase : BaseIdentity := ⟨"config", "index"⟩

def oneDevice : LoRARules :=
  ⟨⟨none, 60, ["npu:0"], 8, 2, "lora"⟩, oneBase, fun _ _ => "batch", fun _ => true⟩

def firstManifest : Manifest := ⟨0, "digest", "lineage", 1, oneBase⟩

def oneEngine (ack : Option PolicyAck) (adapterId : Option ℕ) : LoRAEngine :=
  ⟨"deepseek-lora-v1", oneBase, 1, "lora", [⟨some "uuid", "lora", oneBase, ack, adapterId,
    some "digest"⟩], ack, adapterId⟩

def oneSpec (requestId : Id) : Spec := ⟨[1, 2], 4, 1, requestId, 5⟩

def oneReply (requestId : Id) : BatchReply :=
  ⟨some "batch", [⟨[1, 2], [3], "sampled_distribution", some firstManifest.policyAck, some 1, requestId,
    5, 0, some ("0", 0)⟩], oneEngine (some firstManifest.policyAck) (some 1)⟩

def comesUp : List LoRAAction :=
  [.start, .started 0 0 (some (oneEngine none none)), .activate firstManifest 0,
    .activated (some firstManifest.weights) (some ⟨oneEngine (some firstManifest.policyAck) (some 1),
      some firstManifest.policyAck, some 1, [(some firstManifest.policyAck, some "digest")]⟩), .resume 0]

def oneCall : List LoRAAction :=
  [.admitBatch [oneSpec sampleId] 0, .acquire 0, .look 0, .dispatch 0 0, .reply 0 (some (oneReply sampleId)),
    .release 0, .leave 0]

theorem oneCall_run : ((loraSystem oneDevice).run System.always fresh (comesUp ++ oneCall)).map
    (fun lora => (lora.dispatched, lora.activations,
      lora.batches.map fun batch => batch.place.results?.map (·.length)))
    = some ([sampleId], [firstManifest], [some 1]) := by
  decide +kernel

theorem lora_accounts_oneCall : ∃ lora : LoRA,
    (loraSystem oneDevice).Reachable System.always lora ∧ lora.dispatched = [sampleId] ∧
      lora.dispatched.Nodup ∧ lora.activations.map (·.version) = [0] ∧
      ∃ batch ∈ lora.batches, ∃ results ∈ batch.place.results?, results.length = 1 ∧
        ∃ manifest, batch.manifest = some manifest ∧ manifest.binds results := by
  obtain ⟨lora, finish, same⟩ := map_eq_some_iff.mp oneCall_run
  have reached := System.reachable_of_run rfl finish
  obtain ⟨once, ⟨versions, -, -⟩, -, bound⟩ := lora_accounts oneDevice lora reached
  simp only [Prod.mk.injEq] at same
  obtain ⟨dispatched, activations, batches⟩ := same
  obtain ⟨batch, rest, all, one, -⟩ := map_eq_cons_iff.mp batches
  obtain ⟨results, delivered, length⟩ := map_eq_some_iff.mp one
  refine ⟨lora, reached, dispatched, once, ?_, batch, by rw [all]; exact mem_cons_self, results,
    delivered, length, ?_⟩
  · rw [versions, activations]
    rfl
  · exact (bound 0 batch (by rw [all]; rfl)).2.1 results delivered

end TinyDSV41.Serving
