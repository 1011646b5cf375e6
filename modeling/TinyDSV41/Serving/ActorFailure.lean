/-
**A failed call to the actor.**

A call whose request to the actor has failed records the failure while it holds the sampler lock, and the
controller admits nothing any more. A call that was admitted before looks at the state no more: it takes
the lock next, and its request goes to the actor (`uncertain_issues`).

* `Lost`, `Lost.step` — what holds behind a failed request, as long as every failure is recorded while no
  other call waits for the sampler.
* `uncertain_latches` — in every run of this kind no request is issued behind a failed one.
-/

import TinyDSV41.Serving.PolicyAccounting

namespace TinyDSV41.Serving

open List Lib Lib.Threads Lib.History ServingEvent System
open Relay (Id sampleId otherId)

variable {Payload : Type}

/-- A request has failed, and what the actor makes of it is unknown. -/
def ServingEvent.isUncertain : ServingEvent → Bool
  | .uncertain _ => true
  | _ => false

def ServingEvent.isIssue : ServingEvent → Bool
  | .issued _ _ => true
  | _ => false

def CallPlace.waits : CallPlace → Bool
  | .waiting => true
  | _ => false

/-- No failed request is recorded while a call waits for the sampler. -/
def Attended (server : Server Payload) : ServingAction Payload → Prop
  | .recordLost _ => ∀ call ∈ server.calls, call.place.waits = false
  | _ => True

instance decidableAttended (server : Server Payload) (action : ServingAction Payload) :
    Decidable (Attended server action) := by
  cases action <;> (unfold Attended; infer_instance)

/-- Behind a failed request, its call still has the lock and has not recorded it, or no call is before
its sampling and the controller does not run again. -/
structure Lost (server : Server Payload) : Prop where
  latch : Latch isUncertain isIssue server.log
  holds : (∃ event ∈ server.log, event.isUncertain = true) →
    (∃ (thread : ℕ) (call : Call Payload), server.calls[thread]? = some call ∧ call.place = .lost) ∨
      (server.state = .failed ∨ server.state = .closed) ∧
        Each (fun _ call => call.place.early = false) server.calls

variable {place : CallPlace}

theorem CallPlace.early_locked (early : place.early = true) (attended : place.waits = false) :
    place.locked = true := by
  cases place with
  | holding | marked => rfl
  | waiting => cases attended
  | _ => cases early

section Lost

variable {rules : ServingRules Payload} {server next : Server Payload} {thread : ℕ} {call : Call Payload}

theorem Lost.fresh : Lost (Server.fresh Payload) where
  latch := Latch.nil
  holds := fun ⟨_, impossible, _⟩ => by cases impossible

section

variable (lost : Lost server)
include lost

theorem Lost.admits (admits : Admits rules server next) : Lost next := by
  -- The controller runs, so that a failed request is not recorded yet.
  have open_ : server.state = .running → (∃ event ∈ server.log, event.isUncertain = true) →
      ∃ (thread : ℕ) (call : Call Payload), server.calls[thread]? = some call ∧ call.place = .lost := by
    intro running happened
    refine (lost.holds happened).resolve_right fun ⟨down, _⟩ => ?_
    rcases down with same | same <;> rw [running] at same <;> cases same
  have grown : ∀ {entry requestId policy prompt sampling}, server.state = .running →
      Lost (server.enter entry requestId policy prompt sampling) := by
    intro entry requestId policy prompt sampling running
    have quiet : ∀ event ∈ [admitted server.calls.length requestId],
        event.isIssue = false ∧ event.isUncertain = false := by
      intro event mem
      rw [mem_singleton.mp mem]
      exact ⟨rfl, rfl⟩
    refine ⟨lost.latch.quiet fun event mem => (quiet event mem).1, fun happened => Or.inl ?_⟩
    obtain ⟨thread, call, there, here⟩ := open_ running
      (triggered_append (fun event mem => (quiet event mem).2) happened)
    exact ⟨thread, call, spawn_old there, here⟩
  cases admits with
  | generate payload requestId policy artifact prompt _ running _
  | sampleTokens maxTokens temperature requestId policy artifact prompt _ running _ => exact grown running
  | reject payload requestId policy artifact _ running _ =>
    refine ⟨lost.latch, fun happened => Or.inl ?_⟩
    obtain ⟨thread, call, there, here⟩ := open_ running happened
    exact ⟨thread, call, spawn_old there, here⟩

variable {sampling : AList fun _ : Id => Binding}

theorem Lost.move (there : server.calls[thread]? = some call) (answered : call.place ≠ .lost)
    (later : place.early = true → call.place.early = true) {lock : Option ℕ} {active : ℕ}
    {recorded : Option Bool} {events : List ServingEvent}
    (quiet : ∀ event ∈ events, event.isIssue = false ∧ event.isUncertain = false) :
    Lost (server.moved thread call place lock active recorded sampling events) := by
  refine ⟨lost.latch.quiet fun event mem => (quiet event mem).1, fun happened => ?_⟩
  rcases lost.holds (triggered_append (fun event mem => (quiet event mem).2) happened) with
    ⟨other, found, here, waits⟩ | ⟨down, each⟩
  · refine Or.inl ⟨other, found, (move_other ?_).trans here, waits⟩
    rintro rfl
    rw [there] at here
    cases here
    exact answered waits
  · refine Or.inr ⟨?_, each.move ?_⟩
    · cases recorded with
      | none => exact down
      | some uncertain => exact Or.inl rfl
    · have before : call.place.early = false := each thread call there
      by_contra early
      rw [later (Bool.not_eq_false _ ▸ early)] at before
      cases before

theorem Lost.moved (guarded : Guarded server) (there : server.calls[thread]? = some call)
    {lock : Option ℕ} {active : ℕ} {recorded : Option Bool} {events : List ServingEvent}
    (attended : call.place = .lost → ∀ call ∈ server.calls, call.place.waits = false)
    (moves : CallMoves rules server thread call place lock active recorded sampling events) :
    Lost (server.moved thread call place lock active recorded sampling events) := by
  have silent : ∀ event ∈ ([] : List ServingEvent),
      event.isIssue = false ∧ event.isUncertain = false := nofun
  cases moves with
  | acquire here _ | mark here =>
    exact lost.move there (fun same => by rw [here] at same; cases same) (fun _ => by rw [here]; rfl) silent
  | send here =>
    -- A call that is about to sample has the lock, and no failed request is behind it.
    have calm : ∀ event ∈ server.log, event.isUncertain = false := by
      intro event mem
      by_contra failure
      rcases lost.holds ⟨event, mem, Bool.not_eq_false _ ▸ failure⟩ with
        ⟨other, found, at_, waits⟩ | ⟨-, each⟩
      · have same := guarded.lock.alone there (by rw [here]; rfl) at_ (by rw [waits]; rfl)
        subst same
        rw [there] at at_
        cases at_
        rw [here] at waits
        cases waits
      · have before : call.place.early = false := each thread call there
        rw [here] at before
        cases before
    refine ⟨lost.latch.calm calm, fun happened => ?_⟩
    obtain ⟨event, mem, failure⟩ := happened
    rcases mem_append.mp mem with before | new
    · rw [calm event before] at failure
      cases failure
    · rw [mem_singleton.mp new] at failure
      cases failure
  | lose here _ =>
    refine ⟨lost.latch.quiet fun event mem => ?_, fun _ => Or.inl ⟨thread, _, move_self there, rfl⟩⟩
    rw [mem_singleton.mp mem]
    rfl
  | answer sample here _ | refuse here =>
    refine lost.move there (fun same => by rw [here] at same; cases same) (fun wrong => by cases wrong) ?_
    intro event mem
    rw [mem_singleton.mp mem]
    exact ⟨rfl, rfl⟩
  | breaks here =>
    refine lost.move there (fun lost => ?_) (fun wrong => by cases wrong) silent
    rcases here with here | here | here | ⟨sample, here⟩ <;> rw [here] at lost <;> cases lost
  | note here =>
    refine ⟨lost.latch.quiet nofun, fun _ => Or.inr ⟨Or.inl rfl, ?_⟩⟩
    -- The other calls do not wait, and the call that records its failure was alone at the sampler.
    intro other found at_
    rcases Cells.getElem?_set_cases at_ with ⟨-, rfl⟩ | ⟨different, before⟩
    · rfl
    · by_contra early
      have locked := CallPlace.early_locked (Bool.not_eq_false _ ▸ early)
        (attended here found (mem_of_getElem? before))
      exact different (guarded.lock.alone there (by rw [here]; rfl) before locked)
  | complete sample here | finish sample here | unlock result here | leave result here | record here =>
    exact lost.move there (fun same => by rw [here] at same; cases same) (fun wrong => by cases wrong) silent
  | raise place here ends | look place here ends =>
    rcases ends with rfl | rfl <;>
      exact lost.move there (fun same => by rw [here] at same; cases same) (fun wrong => by cases wrong) silent

theorem Lost.controls (guarded : Guarded server) (controls : ControlMoves rules server next) :
    Lost next := by
  have stays := controls_stay guarded controls
  have failed : ∀ event ∈ [updateFailed],
      event.isIssue = false ∧ event.isUncertain = false := by
    intro event mem
    rw [mem_singleton.mp mem]
    exact ⟨rfl, rfl⟩
  cases controls with
  | reject _ _ | loadFails _ _ _ _ _ | cancels _ =>
    refine ⟨lost.latch.quiet fun event mem => (failed event mem).1, fun happened => ?_⟩
    exact (lost.holds (triggered_append (fun event mem => (failed event mem).2) happened)).imp id
      fun down => ⟨Or.inl rfl, down.2⟩
  | _ =>
    exact ⟨lost.latch, fun happened => (lost.holds happened).imp id fun down => ⟨stays down.1, down.2⟩⟩

theorem Lost.step (guarded : Guarded server) {action : ServingAction Payload}
    (attended : Attended server action) (stepped : server.step rules action = some next) :
    Lost next := by
  rcases server_step_cases stepped with admits |
    ⟨thread, call, place, lock, active, recorded, sampling, events, there, records, moves, rfl⟩ |
    controls
  · exact lost.admits admits
  · refine lost.moved guarded there (fun here => ?_) moves
    obtain ⟨_, rfl⟩ := records here
    exact attended
  · exact lost.controls guarded controls

end

end Lost

/-- In every run in which every failed request is recorded while no call waits for the sampler, no
request is issued to the actor behind a failed one. -/
theorem uncertain_latches (rules : ServingRules Payload) (server : Server Payload)
    (reached : (serverSystem rules).Reachable Attended server) :
    server.log.Pairwise fun earlier later => earlier.isUncertain = true → later.isIssue = false := by
  have sound := reached.invariant (fun server => Guarded server ∧ Lost server) (by
    rintro start rfl
    exact ⟨Guarded.fresh, Lost.fresh⟩) (by
    rintro before action after attended stepped ⟨guarded, lost⟩
    exact ⟨guarded.step stepped, lost.step guarded attended stepped⟩)
  exact sound.2.latch

/-! ### A failed request with a call in the queue -/

def losesFirst : List (ServingAction Unit) :=
  [.generate () sampleId, .generate () otherId, .acquire 0, .mark 0 true, .dispatch 0 true, .reply 0 none]

def issuesSecond : List (ServingAction Unit) :=
  [.recordLost 0, .release 0, .acquire 1, .mark 1 true, .dispatch 1 true]

theorem uncertain_issues_run : ((serverSystem (oneServer .vllm)).run always (Server.fresh Unit)
    (serves ++ losesFirst ++ issuesSecond)).map
    (fun server => server.log.map fun event => (event.isUncertain, event.isIssue))
    = some [(false, false), (false, false), (false, true), (true, false), (false, true)] := by
  decide +kernel

/-- The request of a call that waits is issued behind a failed one. -/
theorem uncertain_issues : ¬ ∀ (rules : ServingRules Unit) (server : Server Unit),
    rules.kind = .vllm → (serverSystem rules).Reachable always server →
    server.log.Pairwise fun earlier later => earlier.isUncertain = true → later.isIssue = false := by
  intro latched
  obtain ⟨server, finish, same⟩ := Option.map_eq_some_iff.mp uncertain_issues_run
  have holds := latched (oneServer .vllm) server rfl (reachable_of_run rfl finish)
  have ordered : (server.log.map fun event => (event.isUncertain, event.isIssue)).Pairwise
      fun earlier later => earlier.1 = true → later.2 = false := pairwise_map.mpr holds
  rw [same] at ordered
  revert ordered
  decide

theorem uncertain_latches_run : ((serverSystem (oneServer .vllm)).run Attended (Server.fresh Unit)
    (serves ++ samples ++ [.reply 0 none, .recordLost 0, .release 0, .look 0, .leave 0])).map
    (fun server => (server.issued, server.log.map fun event => event.isUncertain))
    = some ([sampleId], [false, false, true]) := by
  decide +kernel

theorem uncertain_latches_alone : ∃ server : Server Unit,
    (serverSystem (oneServer .vllm)).Reachable Attended server ∧ server.issued = [sampleId] ∧
      (∃ event ∈ server.log, event.isUncertain = true) ∧
      server.log.Pairwise fun earlier later => earlier.isUncertain = true → later.isIssue = false := by
  obtain ⟨server, finish, same⟩ := Option.map_eq_some_iff.mp uncertain_latches_run
  have reached := reachable_of_run rfl finish
  simp only [Prod.mk.injEq] at same
  have member : true ∈ server.log.map fun event => event.isUncertain := by
    rw [same.2]
    decide
  obtain ⟨event, there, failure⟩ := mem_map.mp member
  exact ⟨server, reached, same.1, ⟨event, there, failure⟩,
    uncertain_latches (oneServer .vllm) server reached⟩

end TinyDSV41.Serving
