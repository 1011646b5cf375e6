/-
**What holds behind a drained relay.**

Once the shim is quiesced it reserves nothing, once its controller is paused as well nothing is sampled,
and only `resume` lets either of them start again. The proof of `wait` is about the requests that the
shim had reserved when it was quiesced, so it stays true until then.

* `Calm` — what every step but those of a resume keeps.
* `Serial` — no operation begins while another one is in progress, except `close` and what is refused.
* `barrier_holds` — the barrier, in every run of this kind.
* `barrier_overlaps` — two pauses that overlap break it.
-/

import TinyDSV41.Serving.LoopbackAccounting
import TinyDSV41.Serving.RelayBarrier

namespace TinyDSV41.Serving

open List Lib Lib.Threads Lib.History Option BarrierEvent System OperationPlace
open Barrier (advance ask fresh log refuses)
open Relay (Id sampleId otherId)

variable {Payload : Type}

/-! ### Closed doors -/

/-- The states in which a controller admits nothing, and from which only `resume` leads back. -/
def ServingState.down : ServingState → Bool
  | .paused | .failed | .closed => true
  | _ => false

/-- The phases in which the shim reserves nothing, and from which only `resume` leads back. -/
def ShimPhase.shut : ShimPhase → Bool
  | .new | .running => false
  | _ => true

section Controller

variable {rules : ServingRules Payload} {server next : Server Payload} {action : ServingAction Payload}

theorem call_step_cases (stepped : server.step rules action = some next) (own : action.ofCall = true) :
    Admits rules server next ∨ CallMoved rules server action next := by
  cases action with
  | generate payload requestId => exact Or.inl (generate_admits stepped)
  | sampleTokens prompt maxTokens temperature requestId => exact Or.inl (sampleTokens_admits stepped)
  | acquire _ | mark _ _ | dispatch _ _ | reply _ _ | recordLost _ | complete _ | finish _ _
  | release _ | look _ | record _ | leave _ => exact Or.inr (call_moves stepped)
  | _ => cases own

theorem admits_up (admits : Admits rules server next) : server.state.down = false := by
  cases admits with
  | generate payload requestId policy artifact prompt _ running _
  | reject payload requestId policy artifact _ running _
  | sampleTokens maxTokens temperature requestId policy artifact prompt _ running _ =>
    rw [running]
    rfl

theorem call_down (stepped : server.step rules action = some next) (own : action.ofCall = true)
    (down : server.state.down = true) : next.state.down = true := by
  rcases call_step_cases stepped own with admits |
    ⟨thread, call, place, lock, active, recorded, sampling, events, there, -, moves, rfl⟩
  · rw [admits_up admits] at down
    cases down
  · cases recorded with
    | none => exact down
    | some uncertain => rfl

theorem call_blocked (guarded : Guarded server) (stepped : server.step rules action = some next)
    (own : action.ofCall = true) (down : server.state.down = true) (empty : server.active = 0) :
    False := by
  rcases call_step_cases stepped own with admits |
    ⟨thread, call, place, lock, active, recorded, sampling, events, there, -, moves, rfl⟩
  · rw [admits_up admits] at down
    cases down
  · have outside := guarded.outside empty there
    rw [moves_admitted moves] at outside
    cases outside

/-- An operation other than `resume` is in progress when it has begun. -/
theorem control_begins (stepped : server.controlStep rules action = some next)
    (stays : action ≠ .resume) (idle : server.control = .idle) : next.control.isIdle = false := by
  cases action with simp only [Server.controlStep, idle] at stepped
  | resume => exact absurd rfl stays
  | start artifact | activate artifact =>
    split at stepped
    · first
      | (cases stepped; rfl)
      | (split_ifs at stepped; cases stepped; rfl)
    · cases stepped
  | pause =>
    split_ifs at stepped
    cases stepped
    rfl
  | close =>
    cases stepped
    rfl
  | _ =>
    cases stepped

/-- Only `resume` brings a controller up that is down. -/
theorem control_down (guarded : Guarded server) (stepped : server.controlStep rules action = some next)
    (stays : action ≠ .resume) (down : server.state.down = true) : next.state.down = true := by
  obtain ⟨-, holds⟩ := guarded.settled
  cases controlStep_cases stepped with
  | start artifact here new =>
    rw [new] at down
    cases down
  | loads artifact candidate initial here =>
    rw [here] at holds
    cases initial with
    | false => rfl
    | true =>
      rw [holds.1] at down
      cases down
  | resume here _ _ =>
    have busy := control_begins stepped stays here
    rw [here] at busy
    cases busy
  | stopped state here ends =>
    rcases ends with rfl | rfl
    · exact down
    · rfl
  | reject _ _ | loadFails _ _ _ _ _ | cancels _ | pause _ _ | close _ => rfl
  | _ => exact down

theorem control_quiet (stepped : server.controlStep rules action = some next) :
    next.active = server.active ∧ next.issued = server.issued := by
  cases controlStep_cases stepped with
  | reject _ _ | loadFails _ _ _ _ _ | cancels _ =>
    refine ⟨rfl, ?_⟩
    change (server.log ++ [ServingEvent.updateFailed]).filterMap _ = _
    rw [filterMap_append]
    exact append_nil _
  | _ => exact ⟨rfl, rfl⟩

end Controller

/-! ### The shim -/

/-- The shim reserves nothing, and no request is left in it. -/
structure Hushed (loopback : Loopback Payload) : Prop where
  shut : loopback.phase.shut = true
  empty : loopback.active = 0

structure Quiet (loopback : Loopback Payload) : Prop extends Hushed loopback where
  down : loopback.server.state.down = true
  drained : loopback.server.active = 0

/-- What every step but those of a resume keeps. -/
structure Calm (loopback next : Loopback Payload) : Prop where
  shut : loopback.phase.shut = true → next.phase.shut = true
  hushed : Hushed loopback → next.active = 0 ∧ next.requests = loopback.requests
  down : loopback.server.state.down = true → next.server.state.down = true
  quiet : loopback.server.state.down = true → loopback.server.active = 0 →
    next.server.active = 0 ∧ next.server.issued = loopback.server.issued

/-- The invariants of the controller and of the shim. -/
structure Sound (loopback : Loopback Payload) : Prop where
  guarded : Guarded loopback.server
  wired : Wired loopback

section Shim

variable {rules : ServingRules Payload} {loopback next : Loopback Payload}

theorem Calm.refl (loopback : Loopback Payload) : Calm loopback loopback :=
  ⟨id, fun hushed => ⟨hushed.empty, rfl⟩, id, fun _ drained => ⟨drained, rfl⟩⟩

theorem Hushed.calm (hushed : Hushed loopback) (calm : Calm loopback next) : Hushed next :=
  ⟨calm.shut hushed.shut, (calm.hushed hushed).1⟩

theorem Quiet.calm (quiet : Quiet loopback) (calm : Calm loopback next) : Quiet next :=
  ⟨quiet.toHushed.calm calm, calm.down quiet.down, (calm.quiet quiet.down quiet.drained).1⟩

theorem calm_phase {phase : ShimPhase} (shuts : phase.shut = true ∨ loopback.phase = .new) :
    Calm loopback { loopback with phase := phase } := by
  refine ⟨fun shut => shuts.resolve_right fun new => ?_, fun hushed => ⟨hushed.empty, rfl⟩, id,
    fun _ drained => ⟨drained, rfl⟩⟩
  rw [new] at shut
  cases shut

/-- A step of a control operation other than `resume`. -/
theorem calm_control {server : Server Payload} {action : ServingAction Payload}
    (sound : Sound loopback) (stepped : loopback.server.controlStep rules action = some server)
    (stays : action ≠ .resume) : Calm loopback { loopback with server := server } := by
  obtain ⟨active, issued⟩ := control_quiet stepped
  exact ⟨id, fun hushed => ⟨hushed.empty, rfl⟩, control_down sound.guarded stepped stays,
    fun _ drained => ⟨active.trans drained, issued⟩⟩

theorem calm_request (sound : Sound loopback)
    (stepped : loopback.step rules action = some next) (own : action.ofRequest = true) :
    Calm loopback next := by
  cases loopback_step_cases sound.wired.counts stepped with
  | server action server same _ moved =>
    subst same
    exact ⟨id, fun hushed => ⟨hushed.empty, rfl⟩, call_down moved own,
      fun down empty => (call_blocked sound.guarded moved own down empty).elim⟩
  | gate phase files _ keeps =>
    refine ⟨fun shut => ?_, fun hushed => ⟨hushed.empty, rfl⟩, id, fun _ drained => ⟨drained, rfl⟩⟩
    rw [keeps own]
    exact shut
  | reserve requestId payload running _ _ =>
    refine ⟨id, fun hushed => ?_, id, fun _ drained => ⟨drained, rfl⟩⟩
    have shut := hushed.shut
    rw [running] at shut
    cases shut
  | enter index handler server _ _ entered =>
    have moved : loopback.server.step rules (.generate handler.payload handler.requestId)
        = some server := entered
    exact ⟨id, fun hushed => ⟨hushed.empty, rfl⟩, call_down moved rfl,
      fun down empty => (call_blocked sound.guarded moved rfl down empty).elim⟩
  | walk index handler place active there held _ _ _ _ _ =>
    refine ⟨id, fun hushed => ?_, id, fun _ drained => ⟨drained, rfl⟩⟩
    have inside := sound.wired.counts.le there
    rw [held, hushed.empty] at inside
    omega
  | answer index handler stage thread _ _ =>
    exact ⟨id, fun hushed => ⟨hushed.empty, rfl⟩, id, fun _ drained => ⟨drained, rfl⟩⟩

theorem Sound.fresh : Sound (Loopback.fresh Payload) := ⟨Guarded.fresh, Wired.fresh⟩

theorem Sound.phase (sound : Sound loopback) {phase : ShimPhase} :
    Sound { loopback with phase := phase } := by
  obtain ⟨guarded, counts, named, apart, owned, runs⟩ := sound
  exact ⟨guarded, counts, named, apart, owned, runs⟩

theorem Sound.control (sound : Sound loopback) {server : Server Payload} {action : ServingAction Payload}
    (stepped : loopback.server.controlStep rules action = some server) :
    Sound { loopback with server := server } := by
  have moves := controlStep_cases stepped
  have calls : server.calls = loopback.server.calls := by cases moves <;> rfl
  obtain ⟨guarded, counts, named, apart, owned, runs⟩ := sound
  refine ⟨guarded.controls moves, counts, named, apart, ?_, ?_⟩
  · rw [calls]
    exact owned
  · rw [calls]
    exact runs

theorem Sound.request (sound : Sound loopback)
    (stepped : loopback.step rules action = some next) : Sound next := by
  refine ⟨?_, sound.wired.step stepped⟩
  cases loopback_step_cases sound.wired.counts stepped with
  | server action server _ _ moved => exact sound.guarded.step moved
  | enter index handler server _ _ entered => exact sound.guarded.admits (generate_admits entered)
  | _ => exact sound.guarded

end Shim

/-! ### The operations -/

/-- Nothing is reserved or sampled, and the relay has delivered every request. -/
structure Sealed (barrier : Barrier Payload) : Prop where
  quiet : Quiet barrier.loopback
  delivered : ∀ id ∈ barrier.loopback.requests, id ∈ barrier.finished ∧ id ∈ barrier.acknowledged

/-- What an operation in progress knows at its place. -/
def Knows (barrier : Barrier Payload) : OperationPlace → Prop
  | .quiescing => barrier.loopback.phase.shut = true
  | .quiesced identities => Hushed barrier.loopback ∧ identities = barrier.loopback.requests
  | .draining identities => Hushed barrier.loopback ∧ identities = barrier.loopback.requests ∧
      barrier.loopback.server.state.down = true
  | .waiting identities => Quiet barrier.loopback ∧ identities = barrier.loopback.requests
  | .checking identities left => Quiet barrier.loopback ∧ identities = barrier.loopback.requests ∧
      ∀ id ∈ identities, id ∈ barrier.acknowledged ∧ (id ∈ left ∨ id ∈ barrier.finished)
  | .proven _ => Sealed barrier
  | .admitted _ | .activating | .activated | .resuming => Sealed barrier ∧ barrier.error = false
  | .resumed => Hushed barrier.loopback ∧ barrier.error = false
  | _ => True

structure Beside (barrier next : Barrier Payload) : Prop where
  calm : Calm barrier.loopback next.loopback
  finished : ∀ id ∈ barrier.finished, id ∈ next.finished
  acknowledged : ∀ id ∈ barrier.acknowledged, id ∈ next.acknowledged
  paused : next.paused = barrier.paused
  error : next.error = barrier.error

/-- The history does not go on behind a failure. -/
def BarrierEvent.isFailure : BarrierEvent → Bool
  | .failed => true
  | _ => false

/-- An activation starts or succeeds, or a resume succeeds. -/
def BarrierEvent.goesOn : BarrierEvent → Bool
  | .activates | .activated | .resumed => true
  | _ => false

/-- One operation is in progress at a time, and knows what its place says; the controller counts as
paused only while it is sealed, and a failure is kept. -/
structure Orderly (barrier : Barrier Payload) : Prop where
  sound : Sound barrier.loopback
  alone : ∃ lock, Locked (fun place : OperationPlace => place.busy = true) barrier.operations lock
  knows : Each (fun _ place => Knows barrier place) barrier.operations
  paused : barrier.paused = true → Sealed barrier ∨ .resumed ∈ barrier.operations
  latch : Latch isFailure goesOn barrier.log
  kept : (∃ event ∈ barrier.log, event.isFailure = true) → barrier.error = true

section Orderly

variable {rules : ServingRules Payload} {barrier next : Barrier Payload} {index : ℕ}
  {place place' : OperationPlace}

theorem Sealed.calm (closed : Sealed barrier) (calm : Calm barrier.loopback next.loopback)
    (finished : ∀ id ∈ barrier.finished, id ∈ next.finished)
    (acknowledged : ∀ id ∈ barrier.acknowledged, id ∈ next.acknowledged) : Sealed next := by
  refine ⟨closed.quiet.calm calm, ?_⟩
  rw [(calm.hushed closed.quiet.toHushed).2]
  intro id mem
  exact (closed.delivered id mem).imp (finished id) (acknowledged id)

theorem Sealed.beside (closed : Sealed barrier) (beside : Beside barrier next) : Sealed next :=
  closed.calm beside.calm beside.finished beside.acknowledged

theorem Knows.beside (knows : Knows barrier place) (beside : Beside barrier next) : Knows next place := by
  cases place with
  | quiescing => exact beside.calm.shut knows
  | quiesced identities =>
    exact ⟨knows.1.calm beside.calm, knows.2.trans (beside.calm.hushed knows.1).2.symm⟩
  | draining identities =>
    exact ⟨knows.1.calm beside.calm, knows.2.1.trans (beside.calm.hushed knows.1).2.symm,
      beside.calm.down knows.2.2⟩
  | waiting identities =>
    exact ⟨knows.1.calm beside.calm, knows.2.trans (beside.calm.hushed knows.1.toHushed).2.symm⟩
  | checking identities left =>
    refine ⟨knows.1.calm beside.calm, knows.2.1.trans (beside.calm.hushed knows.1.toHushed).2.symm,
      fun id mem => ?_⟩
    obtain ⟨acknowledged, finished⟩ := knows.2.2 id mem
    exact ⟨beside.acknowledged id acknowledged, finished.imp_right (beside.finished id)⟩
  | proven identities => exact Sealed.beside knows beside
  | admitted _ | activating | activated | resuming =>
    exact ⟨knows.1.beside beside, beside.error.trans knows.2⟩
  | resumed => exact ⟨knows.1.calm beside.calm, beside.error.trans knows.2⟩
  | _ => trivial

theorem knows_idle (idle : place.busy = false) : Knows barrier place := by
  cases place <;> trivial

theorem Orderly.fresh : Orderly (fresh Payload) where
  sound := Sound.fresh
  alone := ⟨none, Locked.nil⟩
  knows := Each.nil
  paused := nofun
  latch := Latch.nil
  kept := fun ⟨_, impossible, _⟩ => by cases impossible

section

variable (orderly : Orderly barrier)
include orderly

theorem Orderly.beside (beside : Beside barrier next) (sound : Sound next.loopback)
    (operations : next.operations = barrier.operations) {events : List BarrierEvent}
    (log : next.log = barrier.log ++ events)
    (quiet : ∀ event ∈ events, event.goesOn = false ∧ event.isFailure = false) : Orderly next := by
  refine ⟨sound, operations ▸ orderly.alone, ?_, fun up => ?_, ?_, fun happened => ?_⟩
  · rw [operations]
    exact orderly.knows.imp fun _ _ _ knows => knows.beside beside
  · rw [operations]
    exact (orderly.paused (beside.paused ▸ up)).imp_left fun closed => closed.beside beside
  · rw [log]
    exact orderly.latch.quiet fun event mem => (quiet event mem).1
  · rw [log] at happened
    rw [beside.error]
    exact orderly.kept (triggered_append (fun event mem => (quiet event mem).2) happened)

theorem Orderly.yield (there : barrier.operations[index]? = some place) (idle : place.busy = false)
    (idle' : place'.busy = false) (beside : Beside barrier next) (sound : Sound next.loopback)
    (operations : next.operations = barrier.operations.set index place') (log : next.log = barrier.log) :
    Orderly next := by
  obtain ⟨lock, locked⟩ := orderly.alone
  refine ⟨sound, ⟨lock, ?_⟩, ?_, fun up => ?_, ?_, fun happened => ?_⟩
  · rw [operations]
    exact locked.stay there (by rw [idle, idle'])
  · rw [operations]
    exact (orderly.knows.imp fun _ _ _ knows => knows.beside beside).move (knows_idle idle')
  · refine (orderly.paused (beside.paused ▸ up)).imp (fun closed => closed.beside beside) fun mem => ?_
    obtain ⟨other, at_⟩ := mem_iff_getElem?.mp mem
    rw [operations]
    refine mem_iff_getElem?.mpr ⟨other, (move_other fun same => ?_).trans at_⟩
    subst same
    rw [there] at at_
    cases at_
    cases idle
  · rw [log]
    exact orderly.latch
  · rw [log] at happened
    exact beside.error.trans (orderly.kept happened)

theorem Orderly.go (there : barrier.operations[index]? = some place) (busy : place.busy = true)
    (sound : Sound next.loopback) (operations : next.operations = barrier.operations.set index place')
    (knows : Knows next place') (paused : next.paused = true → Sealed next ∨ place' = .resumed)
    (latch : Latch isFailure goesOn next.log)
    (kept : (∃ event ∈ next.log, event.isFailure = true) → next.error = true) : Orderly next := by
  obtain ⟨lock, locked⟩ := orderly.alone
  obtain ⟨inside, -⟩ := List.getElem?_eq_some_iff.mp there
  refine ⟨sound, ?_, ?_, fun up => ?_, latch, kept⟩
  · rw [operations]
    cases busy' : place'.busy with
    | true => exact ⟨lock, locked.stay there (by rw [busy, busy'])⟩
    | false =>
      exact ⟨none, locked.leave there busy fun wrong => by rw [busy'] at wrong; cases wrong⟩
  · rw [operations]
    intro other found at_
    rcases Cells.getElem?_set_cases at_ with ⟨-, rfl⟩ | ⟨different, before⟩
    · exact knows
    · refine knows_idle (Bool.not_eq_true _ ▸ fun busy' => different ?_)
      exact locked.alone there busy before busy'
  · refine (paused up).imp_right fun same => ?_
    rw [operations, ← same]
    exact List.mem_iff_getElem?.mpr ⟨index, List.getElem?_set_self inside⟩

theorem Orderly.begin (idle : ∀ place ∈ barrier.operations, place.busy = false)
    (sound : Sound next.loopback) (operations : next.operations = barrier.operations ++ [place])
    (busy : place.busy = true) (knows : Knows next place) (paused : next.paused = true → Sealed next)
    (log : next.log = barrier.log) (error : next.error = barrier.error) : Orderly next := by
  obtain ⟨lock, locked⟩ := orderly.alone
  refine ⟨sound, ⟨some barrier.operations.length, ?_⟩, ?_, fun up => Or.inl (paused up), ?_,
    fun happened => ?_⟩
  · rw [operations]
    refine Locked.spawnHolder ?_ busy
    cases lock with
    | none => exact locked
    | some thread =>
      obtain ⟨found, there, busy'⟩ := locked.held thread rfl
      rw [idle found (mem_of_getElem? there)] at busy'
      cases busy'
  · rw [operations]
    refine Each.spawn (fun other found there => ?_) knows
    exact knows_idle (idle found (mem_of_getElem? there))
  · rw [log]
    exact orderly.latch
  · rw [log] at happened
    exact error.trans (orderly.kept happened)

/-- A `close` begins. -/
theorem Orderly.close : Orderly { barrier with operations := barrier.operations ++ [.quitting] } := by
  obtain ⟨lock, locked⟩ := orderly.alone
  have beside : Beside barrier { barrier with operations := barrier.operations ++ [.quitting] } :=
    ⟨Calm.refl _, fun _ => id, fun _ => id, rfl, rfl⟩
  refine ⟨orderly.sound, ⟨lock, locked.spawn nofun⟩, ?_, fun up => ?_, orderly.latch, orderly.kept⟩
  · refine Each.spawn (fun index place there => ?_) (knows_idle rfl)
    exact (orderly.knows index place there).beside beside
  · exact (orderly.paused up).imp (fun closed => closed.beside beside) (mem_append_left _)

section

variable (there : barrier.operations[index]? = some place) (busy : place.busy = true)
  (other : place ≠ .resumed)
include there busy other

theorem Orderly.closed (up : barrier.paused = true) : Sealed barrier := by
  refine (orderly.paused up).resolve_right fun mem => other ?_
  obtain ⟨lock, locked⟩ := orderly.alone
  obtain ⟨found, at_⟩ := mem_iff_getElem?.mp mem
  have same := locked.alone there busy at_ rfl
  subst same
  rw [there] at at_
  exact some.inj at_

theorem Orderly.walk (beside : Beside barrier next) (sound : Sound next.loopback)
    (operations : next.operations = barrier.operations.set index place') (knows : Knows next place')
    (log : next.log = barrier.log) : Orderly next := by
  refine orderly.go there busy sound operations knows (fun up => Or.inl ?_) (log ▸ orderly.latch)
    fun happened => ?_
  · exact (orderly.closed there busy other (beside.paused ▸ up)).beside beside
  · rw [log] at happened
    exact beside.error.trans (orderly.kept happened)

theorem Orderly.quit (knows : Knows barrier place' ) : Orderly (barrier.quit index place') := by
  have beside : Beside barrier (barrier.quit index place') :=
    ⟨Calm.refl _, fun _ => id, fun _ => id, rfl, rfl⟩
  exact orderly.walk there busy other beside orderly.sound rfl (knows.beside beside) rfl

theorem Orderly.fails : Orderly (barrier.latch index) := by
  refine orderly.go there busy orderly.sound rfl trivial (fun up => Or.inl ?_) ?_ fun _ => rfl
  · have closed := orderly.closed there busy other up
    exact ⟨closed.quiet, closed.delivered⟩
  · refine orderly.latch.quiet fun event mem => ?_
    rw [mem_singleton.mp mem]
    rfl

end

end

end Orderly

/-! ### Steps -/

/-- No operation begins while another one is in progress, except `close` and what is refused. -/
def Serial (barrier : Barrier Payload) : BarrierAction Payload → Prop
  | .begin .close => True
  | .begin operation =>
    barrier.refuses operation = true ∨ ∀ place ∈ barrier.operations, place.busy = false
  | _ => True

instance decidableSerial (barrier : Barrier Payload) (action : BarrierAction Payload) :
    Decidable (Serial barrier action) := by
  cases action with
  | begin operation => cases operation <;> (unfold Serial; infer_instance)
  | _ => exact isTrue trivial

section Steps

variable {rules : ServingRules Payload} {barrier next : Barrier Payload} {index : ℕ}
  {place : OperationPlace}

theorem ask_cases {accepted : Loopback Payload → Barrier Payload}
    {refused : Barrier Payload} (asked : barrier.ask rules action accepted refused = some next) :
    (∃ server, barrier.loopback.server.controlStep rules action = some server ∧
      next = accepted (barrier.setServer server)) ∨ next = refused := by
  unfold ask at asked
  split_ifs at asked
  cases asked
  split
  · rename_i server stepped
    exact Or.inl ⟨server, stepped, rfl⟩
  · exact Or.inr rfl

theorem Orderly.serve (orderly : Orderly barrier) {server : Server Payload}
    (stepped : barrier.loopback.server.controlStep rules action = some server)
    (stays : action ≠ .resume) : Orderly { barrier with loopback := barrier.setServer server } := by
  have beside : Beside barrier { barrier with loopback := barrier.setServer server } :=
    ⟨calm_control orderly.sound stepped stays, fun _ => id, fun _ => id, rfl, rfl⟩
  exact orderly.beside beside (orderly.sound.control stepped) rfl (append_nil _).symm
    nofun

theorem Orderly.shift (orderly : Orderly barrier) (phase : ShimPhase)
    (shuts : phase.shut = true ∨ barrier.loopback.phase = .new) :
    Orderly { barrier with loopback := barrier.setPhase phase } := by
  have beside : Beside barrier { barrier with loopback := barrier.setPhase phase } :=
    ⟨calm_phase shuts, fun _ => id, fun _ => id, rfl, rfl⟩
  exact orderly.beside beside orderly.sound.phase rfl (append_nil _).symm
    nofun

theorem Orderly.leaves (orderly : Orderly barrier) (there : barrier.operations[index]? = some place)
    (idle : place.busy = false) (place' : OperationPlace) (idle' : place'.busy = false) :
    Orderly (barrier.quit index place') :=
  orderly.yield there idle idle' ⟨Calm.refl _, fun _ => id, fun _ => id, rfl, rfl⟩ orderly.sound rfl rfl

/-- Nothing is admitted when `pause` returns. -/
theorem paused_empty {server next : Server Payload} {cancelled : Bool} (guarded : Guarded server)
    (stepped : server.controlStep rules (.paused cancelled) = some next) : next.active = 0 := by
  obtain ⟨-, holds⟩ := guarded.settled
  rw [(control_quiet stepped).1]
  simp only [Server.controlStep] at stepped
  split at stepped
  · rename_i here
    rw [here] at holds
    exact holds.2
  · cases stepped

theorem Orderly.enter (orderly : Orderly barrier) {operation : Operation}
    (serial : Serial barrier (.begin operation)) : Orderly (barrier.enter operation) := by
  unfold Barrier.enter
  by_cases refused : barrier.refuses operation = true
  · rw [if_pos refused]
    have beside : Beside barrier { barrier with log := barrier.log ++ [.refused] } :=
      ⟨Calm.refl _, fun _ => id, fun _ => id, rfl, rfl⟩
    refine orderly.beside beside orderly.sound rfl rfl fun event mem => ?_
    rw [mem_singleton.mp mem]
    exact ⟨rfl, rfl⟩
  · rw [if_neg refused]
    have quiet : operation ≠ .close → ∀ place ∈ barrier.operations, place.busy = false := by
      intro other
      cases operation with
      | close => exact absurd rfl other
      | _ => exact serial.resolve_left refused
    -- With no operation in progress, the controller counts as paused only if it is sealed.
    have closed : operation ≠ .close → barrier.paused = true → Sealed barrier := by
      intro other up
      refine (orderly.paused up).resolve_right fun mem => ?_
      cases quiet other _ mem
    cases operation with
    | start artifact =>
      have idle := quiet nofun
      refine orderly.begin idle orderly.sound rfl rfl trivial (fun up => ?_) rfl rfl
      have sealed_ := closed (nofun) up
      exact ⟨sealed_.quiet, sealed_.delivered⟩
    | pause =>
      have idle := quiet nofun
      exact orderly.begin idle orderly.sound rfl rfl trivial (nofun) rfl rfl
    | activate artifact =>
      have idle := quiet nofun
      simp only [refuses, Bool.or_eq_true, Bool.not_eq_true', not_or, Bool.not_eq_false,
        Bool.not_eq_true] at refused
      have sealed_ := closed (nofun) refused.1
      dsimp only
      rw [if_pos sealed_.quiet.empty]
      exact orderly.begin idle orderly.sound.phase rfl rfl
        ⟨sealed_.calm (calm_phase (Or.inl rfl)) (fun _ => id) fun _ => id, refused.2⟩
        (nofun) rfl rfl
    | resume =>
      have idle := quiet nofun
      simp only [refuses, Bool.or_eq_true, Bool.not_eq_true', not_or, Bool.not_eq_false,
        Bool.not_eq_true] at refused
      have sealed_ := closed (nofun) refused.1
      have sealed' : Sealed { barrier with operations := barrier.operations ++ [.resuming] } :=
        ⟨sealed_.quiet, sealed_.delivered⟩
      exact orderly.begin idle orderly.sound rfl rfl ⟨sealed', refused.2⟩ (fun _ => sealed') rfl rfl
    | close => exact orderly.close

/-- `pause` leaves the controller paused. -/
theorem pause_down {server next : Server Payload} (stepped : server.controlStep rules .pause = some next) :
    next.state.down = true := by
  simp only [Server.controlStep] at stepped
  split at stepped
  · split_ifs at stepped
    cases stepped
    rfl
  · cases stepped

section

variable (orderly : Orderly barrier)
include orderly

theorem Orderly.unfailed (sane : barrier.error = false) :
    ∀ event ∈ barrier.log, event.isFailure = false := by
  intro event mem
  by_contra failed
  have raised := orderly.kept ⟨event, mem, Bool.not_eq_false _ ▸ failed⟩
  rw [sane] at raised
  cases raised

section

variable (there : barrier.operations[index]? = some place)
include there

theorem Orderly.advance (stepped : barrier.advance rules index place = some next) : Orderly next := by
  have knows := orderly.knows index place there
  cases place with simp only [advance] at stepped
  | starting artifact =>
    rcases ask_cases stepped with ⟨server, moved, rfl⟩ | rfl
    · exact (orderly.serve moved nofun).quit there rfl (nofun) trivial
    · exact orderly.quit there rfl (nofun) trivial
  | opened =>
    split_ifs at stepped with new
    · cases stepped
      exact (orderly.shift .running (Or.inr new)).quit there rfl (nofun) trivial
    · cases stepped
      exact orderly.quit there rfl (nofun) trivial
  | pausing =>
    cases stepped
    exact (orderly.shift .quiescing (Or.inl rfl)).quit there rfl (nofun) rfl
  | quiescing =>
    split_ifs at stepped with empty
    cases stepped
    exact orderly.quit there rfl (nofun) ⟨⟨knows, empty⟩, rfl⟩
  | quiesced identities =>
    rcases ask_cases stepped with ⟨server, moved, rfl⟩ | rfl
    · exact (orderly.serve moved nofun).quit there rfl (nofun)
        ⟨⟨knows.1.shut, knows.1.empty⟩, knows.2, pause_down moved⟩
    · exact orderly.fails there rfl nofun
  | checking identities left =>
    obtain ⟨quiet, all, read⟩ := knows
    cases left with
    | nil =>
      cases stepped
      refine orderly.quit there rfl (nofun) ⟨quiet, fun id mem => ?_⟩
      obtain ⟨acknowledged, finished⟩ := read id (all ▸ mem)
      exact ⟨finished.resolve_left nofun, acknowledged⟩
    | cons identity left =>
      dsimp only at stepped
      split_ifs at stepped with proven
      · cases stepped
        refine orderly.quit there rfl (nofun) ⟨quiet, all, fun id mem => ?_⟩
        obtain ⟨acknowledged, finished⟩ := read id mem
        refine ⟨acknowledged, finished.elim (fun waits => ?_) Or.inr⟩
        rcases mem_cons.mp waits with rfl | later
        · exact Or.inr proven.1
        · exact Or.inl later
      · cases stepped
        exact orderly.fails there rfl nofun
  | proven identities =>
    split_ifs at stepped with empty
    · cases stepped
      refine orderly.go there rfl orderly.sound.phase rfl trivial (fun _ => Or.inl ?_) orderly.latch
        orderly.kept
      exact Sealed.calm knows (calm_phase (Or.inl rfl)) (fun _ => id) fun _ => id
    · cases stepped
      exact orderly.fails there rfl nofun
  | admitted artifact =>
    rcases ask_cases stepped with ⟨server, moved, rfl⟩ | rfl
    · have calm := calm_control orderly.sound moved nofun
      refine orderly.go there rfl (orderly.sound.control moved) rfl
        ⟨knows.1.calm calm (fun _ => id) fun _ => id, knows.2⟩ (fun up => Or.inl ?_)
        (orderly.latch.calm (orderly.unfailed knows.2))
        fun happened => orderly.kept (triggered_append (fun event mem => ?_) happened)
      · exact knows.1.calm calm (fun _ => id) fun _ => id
      · rw [mem_singleton.mp mem]
        rfl
    · exact orderly.fails there rfl nofun
  | activated =>
    split_ifs at stepped with empty
    · cases stepped
      refine orderly.go there rfl orderly.sound.phase rfl trivial (fun _ => Or.inl ?_)
        (orderly.latch.calm (orderly.unfailed knows.2))
        fun happened => orderly.kept (triggered_append (fun event mem => ?_) happened)
      · exact knows.1.calm (calm_phase (Or.inl rfl)) (fun _ => id) fun _ => id
      · rw [mem_singleton.mp mem]
        rfl
    · cases stepped
      exact orderly.fails there rfl nofun
  | resuming =>
    rcases ask_cases stepped with ⟨server, moved, rfl⟩ | rfl
    · exact orderly.go there rfl (orderly.sound.control moved) rfl
        ⟨⟨knows.1.quiet.shut, knows.1.quiet.empty⟩, knows.2⟩ (fun _ => Or.inr rfl) orderly.latch
        orderly.kept
    · exact orderly.quit there rfl (nofun) trivial
  | resumed =>
    rw [if_pos knows.1.empty] at stepped
    cases stepped
    refine orderly.go there rfl orderly.sound.phase rfl trivial (nofun)
      (orderly.latch.calm (orderly.unfailed knows.2))
      fun happened => orderly.kept (triggered_append (fun event mem => ?_) happened)
    rw [mem_singleton.mp mem]
    rfl
  | quitting =>
    cases stepped
    exact (orderly.shift .quiescing (Or.inl rfl)).leaves there rfl .emptying rfl
  | emptying =>
    split_ifs at stepped
    cases stepped
    exact orderly.leaves there rfl .emptied rfl
  | emptied =>
    split_ifs at stepped
    cases stepped
    exact (orderly.shift .closed (Or.inl rfl)).leaves there rfl .closing rfl
  | closing =>
    rcases ask_cases stepped with ⟨server, moved, rfl⟩ | rfl
    · exact (orderly.serve moved nofun).leaves there rfl .halting rfl
    · exact orderly.leaves there rfl .over rfl
  | _ => cases stepped

theorem Orderly.await {action : ServingAction Payload}
    (stepped : barrier.await rules index place action = some next) :
    Orderly next := by
  unfold Barrier.await at stepped
  split_ifs at stepped with awaits
  obtain ⟨server, moved, rfl⟩ := map_eq_some_iff.mp stepped
  have stays : action ≠ .resume := by
    rintro rfl
    cases place <;> cases awaits
  have served := orderly.serve moved stays
  have knows := served.knows index place there
  cases place with dsimp only
  | opening =>
    split_ifs
    · cases action.returns
      all_goals exact served.quit there rfl (nofun) trivial
    · exact served
  | draining identities =>
    split_ifs
    · cases returns : action.returns
      · exact served.fails there rfl nofun
      · -- `pause` has returned behind the drain.
        have empty : server.active = 0 := by
          cases action with
          | paused cancelled => exact paused_empty orderly.sound.guarded moved
          | drain => cases returns
          | _ => cases awaits
        exact served.quit there rfl (nofun) ⟨⟨knows.1, knows.2.2, empty⟩, knows.2.1⟩
    · exact served
  | activating =>
    split_ifs
    · cases action.returns
      · exact served.fails there rfl nofun
      · exact served.quit there rfl (nofun) knows
    · exact served
  | halting =>
    split_ifs
    · cases action.returns
      all_goals exact served.leaves there rfl .over rfl
    · exact served
  | _ => cases awaits

theorem Orderly.interrupt (stepped : barrier.interrupt index place = some next) : Orderly next := by
  cases place with cases stepped
  | quiesced _ | waiting _ | checking _ _ | proven _ | admitted _ =>
    exact orderly.fails there rfl nofun
  | opened | starting _ | resuming =>
    exact orderly.quit there rfl (nofun) trivial
  | closing =>
    exact orderly.leaves there rfl .over rfl

end

theorem Orderly.step {action : BarrierAction Payload} (serial : Serial barrier action)
    (stepped : barrier.step rules action = some next) :
    Orderly next := by
  cases action with
  | loopback action =>
    simp only [Barrier.step] at stepped
    split_ifs at stepped with own
    obtain ⟨loopback, moved, rfl⟩ := map_eq_some_iff.mp stepped
    have beside : Beside barrier { barrier with loopback := loopback } :=
      ⟨calm_request orderly.sound moved own, fun _ => id, fun _ => id, rfl, rfl⟩
    exact orderly.beside beside (orderly.sound.request moved) rfl (append_nil _).symm
      nofun
  | finish id =>
    cases stepped
    have beside : Beside barrier { barrier with finished := barrier.finished ++ [id] } :=
      ⟨Calm.refl _, fun _ => mem_append_left _, fun _ mem => mem, rfl, rfl⟩
    exact orderly.beside beside orderly.sound rfl (append_nil _).symm
      nofun
  | acknowledge id =>
    cases stepped
    have beside : Beside barrier { barrier with acknowledged := barrier.acknowledged ++ [id] } :=
      ⟨Calm.refl _, fun _ mem => mem, fun _ => mem_append_left _, rfl, rfl⟩
    exact orderly.beside beside orderly.sound rfl (append_nil _).symm
      nofun
  | begin operation =>
    cases stepped
    exact orderly.enter serial
  | advance index =>
    obtain ⟨place, there, moved⟩ := bind_eq_some_iff.mp stepped
    exact orderly.advance there moved
  | inner index action =>
    obtain ⟨place, there, moved⟩ := bind_eq_some_iff.mp stepped
    exact orderly.await there moved
  | poll index =>
    simp only [Barrier.step] at stepped
    split at stepped
    · rename_i identities there
      split_ifs at stepped with listed
      cases stepped
      obtain ⟨quiet, all⟩ := orderly.knows index _ there
      exact orderly.quit there rfl (nofun) ⟨quiet, all, fun id mem => ⟨listed mem, Or.inl mem⟩⟩
    · cases stepped
  | fail index =>
    obtain ⟨place, there, moved⟩ := bind_eq_some_iff.mp stepped
    exact orderly.interrupt there moved

end

end Steps

/-! ### Until the next resume -/

/-- An operation brings the shim up again. -/
def OperationPlace.resumes : OperationPlace → Bool
  | .resuming | .resumed => true
  | _ => false

/-- No `resume` passes its check. -/
def Unresumed (barrier : Barrier Payload) : BarrierAction Payload → Prop
  | .begin .resume => barrier.refuses .resume = true
  | _ => True

/-- Nothing is reserved or sampled, and no operation is about to change that. -/
structure Asleep (barrier : Barrier Payload) : Prop where
  sound : Sound barrier.loopback
  quiet : Quiet barrier.loopback
  awake : ∀ place ∈ barrier.operations, place.resumes = false

section Asleep

variable {rules : ServingRules Payload} {barrier next : Barrier Payload} {index : ℕ}
  {place : OperationPlace}

/-- A step that leaves the barrier asleep, and its requests and samples as they are. -/
structure Dozes (barrier next : Barrier Payload) : Prop where
  sound : Sound next.loopback
  calm : Calm barrier.loopback next.loopback
  awake : ∀ place ∈ next.operations, place ∈ barrier.operations ∨ place.resumes = false

theorem Dozes.asleep (dozes : Dozes barrier next) (asleep : Asleep barrier) : Asleep next :=
  ⟨dozes.sound, asleep.quiet.calm dozes.calm, fun place mem =>
    (dozes.awake place mem).elim (asleep.awake place) id⟩

theorem Dozes.move (sound : Sound loopback)
    (calm : Calm barrier.loopback loopback) (next : Barrier Payload) (place : OperationPlace)
    (same : next.loopback = loopback) (operations : next.operations = barrier.operations.set index place)
    (awake : place.resumes = false) : Dozes barrier next := by
  subst same
  refine ⟨sound, calm, fun other mem => ?_⟩
  rw [operations] at mem
  rcases Cells.mem_set mem with rfl | before
  · exact Or.inr awake
  · exact Or.inl before

theorem Dozes.spawn (sound : Sound loopback)
    (calm : Calm barrier.loopback loopback) (next : Barrier Payload) (place : OperationPlace)
    (same : next.loopback = loopback) (operations : next.operations = barrier.operations ++ [place])
    (awake : place.resumes = false) : Dozes barrier next := by
  subst same
  refine ⟨sound, calm, fun other mem => ?_⟩
  rw [operations] at mem
  rcases mem_append.mp mem with before | new
  · exact Or.inl before
  · exact Or.inr (mem_singleton.mp new ▸ awake)

theorem Dozes.stay (sound : Sound loopback)
    (calm : Calm barrier.loopback loopback) (next : Barrier Payload) (same : next.loopback = loopback)
    (operations : next.operations = barrier.operations) : Dozes barrier next := by
  subst same
  exact ⟨sound, calm, fun other mem => Or.inl (operations ▸ mem)⟩

section

variable (asleep : Asleep barrier)
include asleep

theorem Asleep.enter {operation : Operation} (unresumed : Unresumed barrier (.begin operation)) :
    Dozes barrier (barrier.enter operation) := by
  have sound := asleep.sound
  have refl := Calm.refl barrier.loopback
  unfold Barrier.enter
  by_cases refused : barrier.refuses operation = true
  · rw [if_pos refused]
    exact .stay sound refl _ rfl rfl
  · rw [if_neg refused]
    cases operation with
    | start | pause | close => exact .spawn sound refl _ _ rfl rfl rfl
    | activate artifact =>
      dsimp only
      rw [if_pos asleep.quiet.empty]
      exact .spawn sound.phase (calm_phase (Or.inl rfl)) _ _ rfl rfl rfl
    | resume => exact absurd unresumed refused

theorem Asleep.advance (there : barrier.operations[index]? = some place)
    (stepped : barrier.advance rules index place = some next) : Dozes barrier next := by
  have sound := asleep.sound
  have refl := Calm.refl barrier.loopback
  have awake := asleep.awake place (mem_of_getElem? there)
  cases place with simp only [advance] at stepped
  | starting | quiesced | admitted | closing =>
    rcases ask_cases stepped with ⟨server, moved, rfl⟩ | rfl
    · exact .move (sound.control moved) (calm_control sound moved nofun)
        _ _ rfl rfl rfl
    · exact .move sound refl _ _ rfl rfl rfl
  | opened =>
    split_ifs at stepped with new
    · cases stepped
      exact .move sound.phase (calm_phase (Or.inr new)) _ _ rfl rfl rfl
    · cases stepped
      exact .move sound refl _ _ rfl rfl rfl
  | pausing | quitting =>
    cases stepped
    exact .move sound.phase (calm_phase (Or.inl rfl)) _ _ rfl rfl rfl
  | quiescing | emptying =>
    split_ifs at stepped
    cases stepped
    exact .move sound refl _ _ rfl rfl rfl
  | checking identities left =>
    cases left with
    | nil =>
      cases stepped
      exact .move sound refl _ _ rfl rfl rfl
    | cons identity left =>
      dsimp only at stepped
      split_ifs at stepped
      all_goals
        cases stepped
        exact .move sound refl _ _ rfl rfl rfl
  | proven _ | activated =>
    rw [if_pos asleep.quiet.empty] at stepped
    cases stepped
    exact .move sound.phase (calm_phase (Or.inl rfl)) _ _ rfl rfl rfl
  | resuming | resumed => cases awake
  | emptied =>
    split_ifs at stepped
    cases stepped
    exact .move sound.phase (calm_phase (Or.inl rfl)) _ _ rfl rfl rfl
  | _ => cases stepped

theorem Asleep.await {action : ServingAction Payload}
    (stepped : barrier.await rules index place action = some next) : Dozes barrier next := by
  unfold Barrier.await at stepped
  split_ifs at stepped with awaits
  obtain ⟨server, moved, rfl⟩ := map_eq_some_iff.mp stepped
  have sound := asleep.sound.control moved
  have calm := calm_control asleep.sound moved (by
    rintro rfl
    cases place <;> cases awaits)
  split_ifs
  · split
    all_goals exact .move sound calm _ _ rfl rfl rfl
  · exact .stay sound calm _ rfl rfl

theorem Asleep.interrupt (stepped : barrier.interrupt index place = some next) : Dozes barrier next := by
  have refl := Calm.refl barrier.loopback
  cases place with
  | quiesced _ | waiting _ | checking _ _ | proven _ | admitted _ | opened | starting _ | resuming
  | closing =>
    cases stepped
    exact .move asleep.sound refl _ _ rfl rfl rfl
  | _ => cases stepped

theorem Asleep.step {action : BarrierAction Payload} (unresumed : Unresumed barrier action)
    (stepped : barrier.step rules action = some next) :
    Dozes barrier next := by
  have refl := Calm.refl barrier.loopback
  cases action with
  | loopback action =>
    simp only [Barrier.step] at stepped
    split_ifs at stepped with own
    obtain ⟨loopback, moved, rfl⟩ := map_eq_some_iff.mp stepped
    exact .stay (asleep.sound.request moved) (calm_request asleep.sound moved own) _ rfl rfl
  | finish id | acknowledge id =>
    cases stepped
    exact .stay asleep.sound refl _ rfl rfl
  | begin operation =>
    cases stepped
    exact asleep.enter unresumed
  | advance index =>
    obtain ⟨place, there, moved⟩ := bind_eq_some_iff.mp stepped
    exact asleep.advance there moved
  | inner index action =>
    obtain ⟨place, -, moved⟩ := bind_eq_some_iff.mp stepped
    exact asleep.await moved
  | poll index =>
    simp only [Barrier.step] at stepped
    split at stepped
    · split_ifs at stepped
      cases stepped
      exact .move asleep.sound refl _ _ rfl rfl rfl
    · cases stepped
  | fail index =>
    obtain ⟨place, -, moved⟩ := bind_eq_some_iff.mp stepped
    exact asleep.interrupt moved

theorem Asleep.leads {later : Barrier Payload}
    (path : (barrierSystem rules).Leads Unresumed barrier later) :
    later.loopback.requests = barrier.loopback.requests ∧
      later.loopback.server.issued = barrier.loopback.server.issued := by
  have kept := path.preserves (fun later => Asleep later ∧
    later.loopback.requests = barrier.loopback.requests ∧
      later.loopback.server.issued = barrier.loopback.server.issued) ?_ ⟨asleep, rfl, rfl⟩
  · exact kept.2
  · rintro before action after unresumed stepped ⟨asleep, requests, issued⟩
    have dozes := asleep.step unresumed stepped
    exact ⟨dozes.asleep asleep, (dozes.calm.hushed asleep.quiet.toHushed).2.trans requests,
      (dozes.calm.quiet asleep.quiet.down asleep.quiet.drained).2.trans issued⟩

end

end Asleep

/-! ### The barrier -/

/-- An activation has passed its check, and has not ended. -/
def OperationPlace.activates : OperationPlace → Bool
  | .admitted _ | .activating | .activated => true
  | _ => false

/-- In every run in which no operation begins beside another one: while an activation is about to start
or in progress, every request that the shim has reserved was released by its handler, finished by the
relay and acknowledged, and no call is left in the controller; from the proof of a drain until the next
resume nothing is reserved or sampled; and behind a failed pause or activation no activation starts or
succeeds, and no resume does. -/
theorem barrier_holds (rules : ServingRules Payload) (barrier : Barrier Payload)
    (reached : (barrierSystem rules).Reachable Serial barrier) :
    (∀ place ∈ barrier.operations, place.activates = true →
      (∀ id ∈ barrier.loopback.requests, id ∈ barrier.finished ∧ id ∈ barrier.acknowledged ∧
        ∃ handler ∈ barrier.loopback.handlers, handler.requestId = id ∧
          ∃ thread, handler.place = .released thread) ∧
      ∀ call ∈ barrier.loopback.server.calls, call.place.admitted = false) ∧
    (∀ identities, .proven identities ∈ barrier.operations →
      ∀ later, (barrierSystem rules).Leads Unresumed barrier later →
        later.loopback.requests = barrier.loopback.requests ∧
          later.loopback.server.issued = barrier.loopback.server.issued) ∧
    barrier.log.Pairwise fun earlier later => earlier.isFailure = true → later.goesOn = false := by
  have orderly : Orderly barrier := by
    refine reached.invariant Orderly ?_ fun _ _ _ serial stepped orderly => orderly.step serial stepped
    rintro _ rfl
    exact Orderly.fresh
  refine ⟨fun place member activates => ?_, fun identities member later path => ?_, orderly.latch⟩
  all_goals obtain ⟨index, there⟩ := mem_iff_getElem?.mp member
  · have sealed_ : Sealed barrier := by
      have knows := orderly.knows index place there
      cases place with
      | admitted _ | activating | activated => exact knows.1
      | _ => cases activates
    refine ⟨fun id asked => ?_, fun call member => ?_⟩
    · obtain ⟨finished, acknowledged⟩ := sealed_.delivered id asked
      rw [orderly.sound.wired.named] at asked
      obtain ⟨handler, listed, own⟩ := mem_map.mp asked
      refine ⟨finished, acknowledged, handler, listed, own, ?_⟩
      -- The shim counts every handler that has not released its request.
      obtain ⟨at_, there'⟩ := mem_iff_getElem?.mp listed
      have counts := orderly.sound.wired.counts
      rw [sealed_.quiet.empty] at counts
      have weightless := counts.empty there'
      unfold Handler.weight at weightless
      split at weightless
      · rename_i thread here
        exact ⟨thread, here⟩
      · cases weightless
    · obtain ⟨thread, there'⟩ := mem_iff_getElem?.mp member
      exact orderly.sound.guarded.outside sealed_.quiet.drained there'
  · have sealed_ : Sealed barrier := orderly.knows index _ there
    refine Asleep.leads ⟨orderly.sound, sealed_.quiet, fun place member' => ?_⟩ path
    -- The pause is the only operation in progress.
    obtain ⟨lock, locked⟩ := orderly.alone
    obtain ⟨other, there'⟩ := mem_iff_getElem?.mp member'
    by_contra resumes
    have busy : place.busy = true := by
      cases place with
      | resuming | resumed => rfl
      | _ => exact absurd rfl resumes
    have same := locked.alone there rfl there' busy
    subst same
    rw [there] at there'
    cases there'
    exact resumes rfl

/-! ### Runs -/

def opensShim : List (BarrierAction Unit) :=
  [.begin (.start firstArtifact), .advance 0, .inner 0 .check, .inner 0 (.loaded (some firstArtifact.ack)
      (some ⟨some firstArtifact.ack, some firstArtifact.ack, some firstArtifact.ack⟩)),
    .inner 0 (.settle false), .advance 0]

def handles : List (LoopbackAction Unit) :=
  [.reserve sampleId (), .generate 0] ++ (samples.drop 1 ++ answers).map .server ++
    [.collect 0 false, .deliver 0 true, .release 0]

def pauses (index : ℕ) : List (BarrierAction Unit) :=
  [.begin .pause, .advance index, .advance index, .advance index, .inner index .drain,
    .inner index (.paused false)]

def settles (index : ℕ) : List (BarrierAction Unit) :=
  [.poll index, .advance index, .advance index]

/-- A request is sampled and delivered before an activation. -/
def activatesBehind : List (BarrierAction Unit) :=
  opensShim ++ handles.map .loopback ++ pauses 1 ++ [.finish sampleId, .acknowledge sampleId, .poll 1, .advance 1,
    .advance 1, .advance 1, .begin (.activate firstArtifact), .advance 2]

theorem barrier_holds_run : ((barrierSystem (oneServer .pytorch)).run Serial (fresh Unit)
    activatesBehind).map (fun barrier => (barrier.loopback.requests,
      barrier.operations.map activates)) = some ([sampleId], [false, false, true]) := by
  decide +kernel

theorem barrier_holds_activation : ∃ barrier : Barrier Unit,
    (barrierSystem (oneServer .pytorch)).Reachable Serial barrier ∧
    barrier.loopback.requests = [sampleId] ∧ sampleId ∈ barrier.acknowledged ∧
    barrier.log.Pairwise fun earlier later => earlier.isFailure = true → later.goesOn = false := by
  obtain ⟨barrier, finish, same⟩ := map_eq_some_iff.mp barrier_holds_run
  have reached := reachable_of_run rfl finish
  simp only [Prod.mk.injEq] at same
  obtain ⟨drained, -, latched⟩ := barrier_holds (oneServer .pytorch) barrier reached
  have member : true ∈ barrier.operations.map activates := by
    rw [same.2]
    decide
  obtain ⟨place, listed, activates⟩ := mem_map.mp member
  have asked : sampleId ∈ barrier.loopback.requests := by
    rw [same.1]
    exact mem_singleton.mpr rfl
  exact ⟨barrier, reached, same.1, ((drained place listed activates).1 sampleId asked).2.1, latched⟩

/-- A pause hangs in its reading of the records; another one ends, the controller is resumed, a request
is sampled, and a third pause waits for its delivery when the first one ends. -/
def overlaps : List (BarrierAction Unit) :=
  opensShim ++ pauses 1 ++ [.poll 1] ++ pauses 2 ++ settles 2 ++
    [.begin .resume, .advance 3, .advance 3] ++ handles.map .loopback ++ pauses 4 ++
    [.advance 1, .advance 1, .begin (.activate firstArtifact), .advance 5]

def refusesFirst : List (BarrierAction Unit) :=
  opensShim ++ [.begin (.activate firstArtifact)] ++ pauses 1 ++ settles 1 ++
    [.begin (.activate firstArtifact), .advance 2]

theorem barrier_overlaps_run : ((barrierSystem (oneServer .pytorch)).run always
    (fresh Unit) overlaps).map (fun barrier => (barrier.loopback.requests, barrier.acknowledged,
      barrier.operations.any activates)) = some ([sampleId], [], true) := by
  decide +kernel

theorem refusesFirst_run : ((barrierSystem (oneServer .pytorch)).run always
    (fresh Unit) refusesFirst).map log = some [.refused, .activates] := by
  decide +kernel

/-- Without the order of the operations an activation starts beside a request that is not delivered; and
an activation that is refused stops no later one. -/
theorem barrier_overlaps : (¬ ∀ barrier : Barrier Unit,
    (barrierSystem (oneServer .pytorch)).Reachable always barrier →
    ∀ place ∈ barrier.operations, place.activates = true →
      ∀ id ∈ barrier.loopback.requests, id ∈ barrier.acknowledged) ∧
    ¬ ∀ barrier : Barrier Unit, (barrierSystem (oneServer .pytorch)).Reachable always barrier →
      barrier.log.Pairwise fun earlier later =>
        earlier = .refused ∨ earlier.isFailure = true → later.goesOn = false := by
  constructor
  · intro delivered
    obtain ⟨barrier, finish, same⟩ := map_eq_some_iff.mp barrier_overlaps_run
    simp only [Prod.mk.injEq] at same
    obtain ⟨place, listed, activates⟩ := any_eq_true.mp same.2.2
    have acknowledged := delivered barrier (reachable_of_run rfl finish) place listed activates
      sampleId (by rw [same.1]; exact mem_singleton.mpr rfl)
    rw [same.2.1] at acknowledged
    cases acknowledged
  · intro latched
    obtain ⟨barrier, finish, same⟩ := map_eq_some_iff.mp refusesFirst_run
    have ordered := latched barrier (reachable_of_run rfl finish)
    rw [same] at ordered
    revert ordered
    decide

end TinyDSV41.Serving
