/-
**The latch of a failed inference.**

A failed inference sets the state to `failed` before it gives the sampler lock back, and a queued call
that finds this state is refused. `close` overwrites the state, so that a call that is queued while
`close` begins behind a failure is handed to the actor after all (`failure_forgotten`).

* `Latched`, `Latched.step` — what holds behind a failure, as long as no `close` begins in such a state.
* `failure_latches` — in every run of this kind nothing is dispatched behind a failure.
-/

import TinyDSV41.Lib.History
import TinyDSV41.Serving.LoRAAccounting

namespace TinyDSV41.Serving

open List Lib Lib.Threads Lib.History Latch System
open Relay (sampleId otherId)

/-! ### The latch of a failure -/

def LoRAEvent.isFailure : LoRAEvent → Bool
  | .failed _ => true
  | _ => false

def LoRAEvent.isDispatch : LoRAEvent → Bool
  | .dispatched _ _ => true
  | _ => false

/-- Behind a failed inference nothing is handed to the actor. -/
def LoRA.FailsClosed (lora : LoRA) : Prop := Latch LoRAEvent.isFailure LoRAEvent.isDispatch lora.log

/-- The places of a call that has not looked for a failure. -/
def BatchPlace.queued : BatchPlace → Bool
  | .waiting | .holding => true
  | _ => false

/-- No `close` while a failure is recorded and calls are queued for the sampler. -/
def Patient (lora : LoRA) : LoRAAction → Prop
  | .close => lora.phase = .failed → ∀ batch ∈ lora.batches, batch.place.queued = false
  | _ => True

instance decidablePatient (lora : LoRA) (action : LoRAAction) : Decidable (Patient lora action) := by
  cases action <;> (unfold Patient; infer_instance)

/-- A failure that is recorded, or whose record can no longer matter. -/
structure Silent (lora : LoRA) : Prop where
  idle : Each (fun _ batch => batch.place ≠ .ready ∧ batch.place ≠ .calling) lora.batches
  recorded : lora.phase = .failed ∨ (lora.phase = .closing ∨ lora.phase = .closed) ∧
    Each (fun _ batch => batch.place.queued = false) lora.batches

/-- Behind a failure, its call still has the lock and has not recorded it, or nothing is called. -/
structure Latched (lora : LoRA) : Prop where
  closed : lora.FailsClosed
  latched : (∃ event ∈ lora.log, event.isFailure = true) →
    (∃ (thread : ℕ) (batch : Batch), lora.batches[thread]? = some batch ∧ batch.place = .broken) ∨
      Silent lora

section Latched

variable {rules : LoRARules} {lora next : LoRA} {thread : ℕ} {batch : Batch}

theorem Latched.fresh : Latched LoRA.fresh where
  closed := nil
  latched := fun ⟨_, impossible, _⟩ => by cases impossible

variable {phase : LoRAPhase}
variable {lock : Option ℕ} {active : ℕ}

theorem Silent.move (silent : Silent lora) {place : BatchPlace} (away : place ≠ .ready ∧ place ≠ .calling)
    (queued : place.queued = true → batch.place.queued = true)
    (there : lora.batches[thread]? = some batch) (stays : phase = lora.phase ∨ phase = .failed)
    {events : List LoRAEvent} :
    Silent { lora with
      phase := phase
      active := active
      samplerLock := lock
      batches := lora.move thread batch place
      log := lora.log ++ events } := by
  refine ⟨silent.idle.move away, ?_⟩
  rcases stays with rfl | rfl
  · refine silent.recorded.imp id fun ⟨closing, empty⟩ => ⟨closing, ?_⟩
    refine empty.move (Bool.eq_false_iff.mpr fun waits => ?_)
    have before : batch.place.queued = false := empty thread batch there
    rw [queued waits] at before
    cases before
  · exact Or.inl rfl

/-- A silent controller stays silent under a control operation, if a `close` finds no queued call. -/
theorem Silent.controls (silent : Silent lora) (gated : Gated lora) {control : LoRAControl}
    (controls : Controls rules lora phase control)
    (patient : control = .closing → lora.phase = .failed → ∀ batch ∈ lora.batches, batch.place.queued =
      false) :
    Silent { lora with phase := phase, control := control } := by
  refine ⟨silent.idle, ?_⟩
  obtain ⟨-, holds⟩ := gated.steady
  -- The phases of a silent controller.
  have phases : lora.phase = .failed ∨ lora.phase = .closing ∨ lora.phase = .closed :=
    silent.recorded.imp id And.left
  cases controls with
  | start here new => rcases phases with same | same | same <;> rw [new] at same <;> cases same
  | startEnds _ here ends =>
    rw [here] at holds
    rcases phases with same | same | same <;> rw [holds] at same <;> cases same
  | activate | drain | drainToClose | pauseFails | cancelClose => exact silent.recorded
  | pause here running =>
    rcases phases with same | same | same <;> rw [running] at same <;> cases same
  | paused here healthy =>
    rw [here] at holds
    have pausing : lora.phase = .pausing := holds.1.resolve_right healthy
    rcases phases with same | same | same <;> rw [pausing] at same <;> cases same
  | resume here paused _ =>
    rcases phases with same | same | same <;> rw [paused] at same <;> cases same
  | close here _ =>
    refine Or.inr ⟨Or.inl rfl, ?_⟩
    rcases silent.recorded with failed | ⟨-, empty⟩
    · exact fun thread batch there => patient rfl failed batch (mem_of_getElem? there)
    · exact empty
  | closed _ here ends =>
    rw [here] at holds
    rcases ends with rfl | rfl
    · refine Or.inr ⟨Or.inr rfl, fun thread batch there => Bool.eq_false_iff.mpr fun queued => ?_⟩
      have outside := gated.outside holds.2 there
      cases place : batch.place with
      | waiting | holding =>
        rw [place] at outside
        cases outside
      | _ =>
        rw [place] at queued
        cases queued
    · exact Or.inl rfl

theorem Latched.breaks (latched : Latched lora) (there : lora.batches[thread]? = some batch) :
    Latched { lora with
      phase := phase
      active := active
      samplerLock := lock
      batches := lora.move thread batch .broken
      log := lora.log ++ [.failed thread] } where
  closed := quiet latched.closed fun event mem => by
    rw [mem_singleton.mp mem]
    rfl
  latched _ := Or.inl ⟨thread, _, move_self there, rfl⟩

/-- A move that adds nothing to the history and leads away from the actor. -/
theorem Latched.move (latched : Latched lora) (gated : Gated lora)
    (there : lora.batches[thread]? = some batch) {place : BatchPlace}
    (stays : phase = lora.phase ∨ phase = .failed) (away : place ≠ .calling)
    (passes : place = .ready → batch.place = .holding ∧ lora.phase ≠ .failed)
    (queued : place.queued = true → batch.place.queued = true)
    (broken : batch.place = .broken → phase = .failed) :
    Latched { lora with
      phase := phase
      active := active
      samplerLock := lock
      batches := lora.move thread batch place
      log := lora.log ++ [] } := by
  refine ⟨quiet latched.closed nofun, fun happened => ?_⟩
  rw [append_nil] at happened
  rcases latched.latched happened with ⟨other, found, here, breaks⟩ | silent
  · by_cases same : other = thread
    · subst same
      obtain rfl : batch = found := by
        rw [there] at here
        exact Option.some.inj here
      -- The failure is recorded now; its call was alone at the sampler.
      refine Or.inr ⟨?_, Or.inl (broken breaks)⟩
      have alone : Each (fun index batch => index ≠ other → batch.place ≠ .ready ∧ batch.place ≠ .calling)
          lora.batches := by
        intro index _ at_ different
        have locked : batch.place.locked = true := by
          rw [breaks]
          rfl
        refine ⟨fun ready => ?_, fun calling => ?_⟩
        · exact different (gated.lock.alone here locked at_ (by rw [ready]; rfl))
        · exact different (gated.lock.alone here locked at_ (by rw [calling]; rfl))
      intro index moved at_
      rcases Cells.getElem?_set_cases at_ with ⟨-, rfl⟩ | ⟨different, before⟩
      · refine ⟨fun ready => ?_, away⟩
        have held := (passes ready).1
        rw [breaks] at held
        cases held
      · exact alone index moved before different
    · exact Or.inl ⟨other, found, (move_other same).trans here, breaks⟩
  · refine Or.inr (silent.move ⟨fun ready => ?_, away⟩ queued there stays)
    -- A call that passes is queued, and the state is not `failed`.
    obtain ⟨holding, healthy⟩ := passes ready
    obtain ⟨-, empty⟩ := silent.recorded.resolve_left healthy
    have unqueued : batch.place.queued = false := empty thread batch there
    rw [holding] at unqueued
    cases unqueued

theorem Latched.step (latched : Latched lora) (gated : Gated lora) {action : LoRAAction}
    (patient : Patient lora action) (stepped : lora.step rules action = some next) : Latched next := by
  rcases step_cases stepped with ⟨specs, -, running, -, rfl⟩ |
    ⟨thread, batch, place, lock, active, phase, events, there, moves, rfl⟩ |
    ⟨phase, control, controls, closes, rfl⟩ | ⟨manifest, weights, reply, here, -, rfl⟩
  · refine ⟨latched.closed, fun happened => ?_⟩
    rcases latched.latched happened with ⟨thread, batch, there, breaks⟩ | silent
    · exact Or.inl ⟨thread, batch, spawn_old there, breaks⟩
    · rcases silent.recorded with same | ⟨same | same, -⟩ <;> rw [running] at same <;> cases same
  · -- A call that is ready or at the actor finds no failure in the history.
    have healthy : batch.place = .ready ∨ batch.place = .calling →
        ∀ event ∈ lora.log, event.isFailure = false := by
      intro serving event mem
      by_contra failure
      rcases latched.latched ⟨event, mem, Bool.not_eq_false _ ▸ failure⟩ with
        ⟨other, found, here, breaks⟩ | silent
      · have locked : batch.place.locked = true := by rcases serving with here | here <;> rw [here] <;> rfl
        have same := gated.lock.alone there locked here (by rw [breaks]; rfl)
        subst same
        rw [there] at here
        cases here
        rcases serving with place | place <;> rw [breaks] at place <;> cases place
      · rcases serving with place | place
        · exact (silent.idle thread batch there).1 place
        · exact (silent.idle thread batch there).2 place
    have moved : ∀ {place phase lock active}, (phase = lora.phase ∨ phase = .failed) →
        place ≠ .calling → (place = .ready → batch.place = .holding ∧ lora.phase ≠ .failed) →
        (place.queued = true → batch.place.queued = true) → (batch.place = .broken → phase = .failed) →
        Latched { lora with
          phase := phase
          active := active
          samplerLock := lock
          batches := lora.move thread batch place
          log := lora.log ++ [] } := fun stays away passes queued broken =>
      latched.move gated there stays away passes queued broken
    cases moves with
    | acquire here _ =>
      exact moved (Or.inl rfl) nofun nofun (fun _ => by rw [here]; rfl)
        (fun wrong => by rw [here] at wrong; cases wrong)
    | refuse here _ | answer manifest reply here _ _ | unlock results here | deliver results here
    | abandon here =>
      exact moved (Or.inl rfl) nofun nofun nofun (fun wrong => by rw [here] at wrong; cases wrong)
    | pass here unfailed =>
      exact moved (Or.inl rfl) nofun (fun _ => ⟨here, unfailed⟩)
        nofun
        (fun wrong => by rw [here] at wrong; cases wrong)
    | call here =>
      refine ⟨calm latched.closed (healthy (Or.inl here)), ?_⟩
      rintro ⟨event, mem, failure⟩
      rcases mem_append.mp mem with before | new
      · rw [healthy (Or.inl here) event before] at failure
        cases failure
      · rw [mem_singleton.mp new] at failure
        cases failure
    | breaks here => exact latched.breaks there
    | latch here | mark here =>
      exact moved (Or.inr rfl) nofun nofun nofun (fun _ => rfl)
    | raise here =>
      rcases here with here | here <;>
        exact moved (Or.inl rfl) nofun nofun nofun (fun wrong => by rw [here] at wrong; cases wrong)
  · refine ⟨latched.closed, fun happened => ?_⟩
    refine (latched.latched happened).imp id fun silent => silent.controls gated controls ?_
    intro closing failed
    rw [closes closing] at patient
    exact patient failed
  · obtain ⟨settled, paused⟩ := gated.steady
    rw [here] at paused
    have empty := settled (by rw [paused]; rfl)
    -- No failure is possible while a load is in progress: the state is `paused`.
    have unfailed : ∀ event ∈ lora.log, event.isFailure = false := by
      intro event mem
      by_contra failure
      rcases latched.latched ⟨event, mem, Bool.not_eq_false _ ▸ failure⟩ with
        ⟨other, found, there, breaks⟩ | silent
      · have outside := gated.outside empty there
        rw [breaks] at outside
        cases outside
      · rcases silent.recorded with same | ⟨same | same, -⟩ <;> rw [paused] at same <;> cases same
    have nothing : ∀ events : List LoRAEvent, (∀ event ∈ events, event.isFailure = false) →
        ¬ ∃ event ∈ lora.log ++ events, event.isFailure = true := by
      rintro events fine ⟨event, mem, failure⟩
      rcases mem_append.mp mem with before | new
      · rw [unfailed event before] at failure
        cases failure
      · rw [fine event new] at failure
        cases failure
    unfold LoRA.activated
    split_ifs
    · refine ⟨quiet latched.closed fun event mem => ?_, fun happened => absurd happened
        (nothing [.activated manifest] fun event mem => ?_)⟩
      all_goals
        rw [mem_singleton.mp mem]
        rfl
    · refine ⟨latched.closed, fun happened => absurd happened ?_⟩
      have none_ := nothing [] nofun
      rwa [append_nil] at none_

end Latched

/-- In every run in which no `close` begins while a failure is recorded and calls are queued for the
sampler, nothing is handed to the actor behind a failed inference. -/
theorem failure_latches (rules : LoRARules) (lora : LoRA)
    (reached : (loraSystem rules).Reachable Patient lora) : lora.FailsClosed := by
  have sound := reached.invariant (fun lora => Gated lora ∧ Latched lora) (by
    rintro start rfl
    exact ⟨Gated.fresh, Latched.fresh⟩) (by
    rintro before action after patient stepped ⟨gated, latched⟩
    exact ⟨gated.step stepped, latched.step gated patient stepped⟩)
  exact sound.2.closed

/-! ### A failure with a call in the queue -/

def failsFirst : List LoRAAction :=
  [.admitBatch [oneSpec sampleId] 0, .admitBatch [oneSpec otherId] 0, .acquire 0, .look 0, .dispatch 0 0,
    .reply 0 none, .latch 0, .release 0, .mark 0, .leave 0]

def looksSecond : List LoRAAction := [.acquire 1, .look 1]

theorem failure_forgotten_run : ((loraSystem oneDevice).run always LoRA.fresh
    (comesUp ++ failsFirst ++ [.close] ++ looksSecond ++ [.dispatch 1 0])).map
    (fun lora => lora.log.map fun event => (event.isFailure, event.isDispatch))
    = some [(false, false), (false, true), (true, false), (false, true)] := by
  decide +kernel

/-- A `close` behind the failure lets the second call through. -/
theorem failure_forgotten : ¬ ∀ (rules : LoRARules) (lora : LoRA),
    (loraSystem rules).Reachable always lora → lora.FailsClosed := by
  intro closed
  obtain ⟨lora, finish, same⟩ := Option.map_eq_some_iff.mp failure_forgotten_run
  have holds := closed oneDevice lora (reachable_of_run rfl finish)
  have ordered : (lora.log.map fun event => (event.isFailure, event.isDispatch)).Pairwise
      fun earlier later => earlier.1 = true → later.2 = false := pairwise_map.mpr holds
  rw [same] at ordered
  revert ordered
  decide

theorem failure_latches_run : ((loraSystem oneDevice).run Patient LoRA.fresh
    (comesUp ++ failsFirst ++ looksSecond)).map
    (fun lora => (lora.log.map fun event => (event.isFailure, event.isDispatch), lora.dispatched))
    = some ([(false, false), (false, true), (true, false)], [sampleId]) := by
  decide +kernel

theorem failure_latches_queued : ∃ lora : LoRA,
    (loraSystem oneDevice).Reachable Patient lora ∧ lora.FailsClosed ∧
      (∃ event ∈ lora.log, event.isFailure = true) ∧ lora.dispatched = [sampleId] := by
  obtain ⟨lora, finish, same⟩ := Option.map_eq_some_iff.mp failure_latches_run
  have reached := reachable_of_run rfl finish
  simp only [Prod.mk.injEq] at same
  refine ⟨lora, reached, failure_latches oneDevice lora reached, ?_, same.2⟩
  obtain ⟨_, rest, all, -, behind⟩ := map_eq_cons_iff.mp same.1
  obtain ⟨_, rest', all', -, behind'⟩ := map_eq_cons_iff.mp behind
  obtain ⟨event, rest'', all'', failure, -⟩ := map_eq_cons_iff.mp behind'
  refine ⟨event, ?_, congrArg Prod.fst failure⟩
  rw [all, all', all'']
  simp

end TinyDSV41.Serving
