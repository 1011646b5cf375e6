/-
**What the policy controllers promise of generations and policies.**

Every step is an admission, a rejection, a move of one call or a move of the control operation
(`step_cases`). The gate counts the admitted calls, so that a load finds none; the sampler lock admits
one; so every call samples under the weights of the policy it was admitted under, and no request is
sampled twice.

* `Guarded`, `Bound`, `Stopped` — the invariants, and `Guarded.step`, `Bound.step`, `Stopped.step` that
  every step keeps them.
* `server_accounts` — the promises, over all runs of both controllers.
-/

import TinyDSV41.Lib.History
import TinyDSV41.Serving.PolicyController

namespace TinyDSV41.Serving

open List Lib Lib.Threads Lib.History Server Option ServingRules Call Once
open Relay (Id sampleId)

variable {Payload : Type}

/-! ### The moves -/

/-- `_fail_generation`, if it is called. -/
def Server.noted (server : Server Payload) : Option Bool → Server Payload
  | none => server
  | some uncertain => { server with
      actorFailure := some uncertain
      state := .failed
      drained := false }

/-- One move of an admitted call: its next place, the lock and the count behind it, the failure that it
records, what is kept of the requests, and what is added to the history. -/
inductive CallMoves (rules : ServingRules Payload) (server : Server Payload) (thread : ℕ)
    (call : Call Payload) : CallPlace → Option ℕ → ℕ → Option Bool → (AList fun _ : Id => Binding) →
      List ServingEvent → Prop
  | acquire (here : call.place = .waiting) (free : server.samplerLock = none) :
      CallMoves rules server thread call .holding (some thread) server.active none
        server.requestSampling []
  | mark (here : call.place = .holding) :
      CallMoves rules server thread call .marked server.samplerLock server.active none
        (server.outcome rules call .unknown) []
  | send (here : call.place = .marked) :
      CallMoves rules server thread call .calling server.samplerLock server.active none
        server.requestSampling [.issued thread call.requestId]
  | lose (here : call.place = .marked ∨ call.place = .calling) (remote : rules.kind = .vllm) :
      CallMoves rules server thread call .lost server.samplerLock server.active none
        server.requestSampling [.uncertain thread]
  | answer (sample : SampleReply) (here : call.place = .calling)
      (checked : rules.checkSample call.prompt server.ack sample = true) :
      CallMoves rules server thread call (.sampled sample) server.samplerLock server.active none
        server.requestSampling [.returned thread call.requestId]
  | refuse (here : call.place = .calling) :
      CallMoves rules server thread call .broken server.samplerLock server.active none
        server.requestSampling [.returned thread call.requestId]
  | breaks (here : call.place = .holding ∨ call.place = .marked ∨ call.place = .calling ∨
        ∃ sample, call.place = .completed sample) :
      CallMoves rules server thread call .broken server.samplerLock server.active none
        server.requestSampling []
  | note (here : call.place = .lost) :
      CallMoves rules server thread call .broken server.samplerLock server.active (some true)
        server.requestSampling []
  | complete (sample : SampleReply) (here : call.place = .sampled sample) :
      CallMoves rules server thread call (.completed sample) server.samplerLock server.active none
        (server.outcome rules call .completed) []
  | finish (sample : SampleReply) (here : call.place = .completed sample) :
      CallMoves rules server thread call (.finished (result rules call sample))
        server.samplerLock server.active none server.requestSampling []
  | unlock (result : CallResult) (here : call.place = .finished result) :
      CallMoves rules server thread call (.leaving (some result)) none server.active none
        server.requestSampling []
  | raise (place : CallPlace) (here : call.place = .broken)
      (ends : place = .raising ∨ place = .leaving none) :
      CallMoves rules server thread call place none server.active none server.requestSampling []
  | look (place : CallPlace) (here : call.place = .raising)
      (ends : place = .recording ∨ place = .leaving none) :
      CallMoves rules server thread call place server.samplerLock server.active none
        server.requestSampling []
  | record (here : call.place = .recording) :
      CallMoves rules server thread call (.leaving none) server.samplerLock server.active (some false)
        server.requestSampling []
  | leave (result : Option CallResult) (here : call.place = .leaving result) :
      CallMoves rules server thread call (.over result) server.samplerLock (server.active - 1) none
        server.requestSampling []

/-- What a move of a call makes of the controller. -/
def Server.moved (server : Server Payload) (thread : ℕ) (call : Call Payload) (place : CallPlace)
    (lock : Option ℕ) (active : ℕ) (recorded : Option Bool) (sampling : AList fun _ : Id => Binding)
    (events : List ServingEvent) : Server Payload :=
  { server.noted recorded with
    active := active
    requestSampling := sampling
    samplerLock := lock
    calls := server.move thread call place
    log := server.log ++ events }

inductive ControlMoves (rules : ServingRules Payload) (server : Server Payload) :
    Server Payload → Prop
  | start (artifact : Artifact) (here : server.control = .idle) (new : server.state = .new) :
      ControlMoves rules server { server with state := .loading, control := .checking artifact true }
  | activate (artifact : Artifact) (here : server.control = .idle) (paused : server.state = .paused)
      (proven : server.drained = true) (empty : server.active = 0) :
      ControlMoves rules server { server with drained := false, control := .checking artifact false }
  | accept (artifact : Artifact) (candidate : Policy) (initial : Bool)
      (here : server.control = .checking artifact initial)
      (accepts : rules.checkArtifact server.current artifact = some candidate) :
      ControlMoves rules server
        { server with weights := none, control := .loading artifact candidate initial }
  | reject (artifact : Artifact) (here : server.control = .checking artifact true) :
      ControlMoves rules server { server with
        state := .failed
        control := .idle
        log := server.log ++ [.updateFailed] }
  | decline (artifact : Artifact) (here : server.control = .checking artifact false) :
      ControlMoves rules server { server with control := .idle }
  | loads (artifact : Artifact) (candidate : Policy) (initial : Bool)
      (here : server.control = .loading artifact candidate initial) :
      ControlMoves rules server { server with
        current := some (candidate, artifact)
        ack := some artifact.ack
        state := if initial = true then .running else .paused
        weights := some artifact.ack
        control := .loaded }
  | loadFails (artifact : Artifact) (candidate : Policy) (initial : Bool) (weights : Option PolicyAck)
      (here : server.control = .loading artifact candidate initial) :
      ControlMoves rules server { server with
        state := .failed
        weights := weights
        control := .idle
        log := server.log ++ [.updateFailed] }
  | settles (here : server.control = .loaded) :
      ControlMoves rules server { server with control := .idle }
  | cancels (here : server.control = .loaded) :
      ControlMoves rules server { server with
        state := .failed
        control := .idle
        log := server.log ++ [.updateFailed] }
  | pause (here : server.control = .idle) (up : server.state = .running ∨ server.state = .paused) :
      ControlMoves rules server { server with state := .paused, drained := false, control := .pausing }
  | drain (here : server.control = .pausing) (empty : server.active = 0) :
      ControlMoves rules server { server with control := .drained }
  | undrained (here : server.control = .pausing) (empty : server.active = 0) :
      ControlMoves rules server { server with control := .idle }
  | paused (drained : Bool) (here : server.control = .drained) :
      ControlMoves rules server { server with drained := drained, control := .idle }
  | resume (here : server.control = .idle) (paused : server.state = .paused)
      (empty : server.active = 0) :
      ControlMoves rules server { server with state := .running, drained := false }
  | close (here : server.control = .idle) :
      ControlMoves rules server { server with state := .closed, drained := false, control := .closing }
  | halt (weights : Option PolicyAck) (here : server.control = .closing) (empty : server.active = 0)
      (drops : weights = none ∨ weights = server.weights) :
      ControlMoves rules server { server with weights := weights, control := .idle }
  | stop (here : server.control = .closing) (empty : server.active = 0) :
      ControlMoves rules server { server with control := .stopping }
  | stopped (state : ServingState) (here : server.control = .stopping)
      (ends : state = server.state ∨ state = .failed) :
      ControlMoves rules server { server with state := state, weights := none, control := .idle }

def Server.enter (server : Server Payload) (entry : Entry Payload) (requestId : Id) (policy : Policy)
    (prompt : List ℕ) (sampling : AList fun _ : Id => Binding) : Server Payload := { server with
  requestSampling := sampling
  seen := server.seen ++ [requestId]
  active := server.active + 1
  calls := server.calls ++ [⟨entry, requestId, policy, prompt, .waiting⟩]
  log := server.log ++ [.admitted server.calls.length requestId] }

/-- What is left of a request that `generate` rejects behind its binding. -/
def Server.reject (server : Server Payload) (payload : Payload) (requestId : Id) (policy : Policy)
    (sampling : AList fun _ : Id => Binding) : Server Payload := { server with
  requestSampling := sampling
  calls := server.calls ++ [⟨.generate payload, requestId, policy, [], .over none⟩] }

inductive Admits (rules : ServingRules Payload) (server : Server Payload) : Server Payload → Prop
  | generate (payload : Payload) (requestId : Id) (policy : Policy) (artifact : Artifact)
      (prompt : List ℕ) (current : server.current = some (policy, artifact))
      (running : server.state = .running) (unseen : requestId ∉ server.seen) :
      Admits rules server (server.enter (.generate payload) requestId policy prompt
        (server.bind rules payload requestId policy))
  | reject (payload : Payload) (requestId : Id) (policy : Policy) (artifact : Artifact)
      (current : server.current = some (policy, artifact)) (running : server.state = .running)
      (unseen : requestId ∉ server.seen) :
      Admits rules server (server.reject payload requestId policy
        (server.bind rules payload requestId policy))
  | sampleTokens (maxTokens : ℕ) (temperature : ℚ) (requestId : Id) (policy : Policy)
      (artifact : Artifact) (prompt : List ℕ) (current : server.current = some (policy, artifact))
      (running : server.state = .running) (unseen : requestId ∉ server.seen) :
      Admits rules server (server.enter (.sampleTokens maxTokens temperature) requestId policy prompt
        server.requestSampling)

variable {action : ServingAction Payload}

section Moves

variable {rules : ServingRules Payload} {server next : Server Payload}

theorem callStep_cases {thread : ℕ} {call : Call Payload}
    (stepped : server.callStep rules thread call action = some next) :
    ∃ place lock active recorded sampling events,
      CallMoves rules server thread call place lock active recorded sampling events ∧
      next = server.moved thread call place lock active recorded sampling events := by
  have unanswered : ∀ {next}, call.place = .marked ∨ call.place = .calling →
      server.receive rules thread call none = next →
      ∃ place lock active recorded sampling events,
        CallMoves rules server thread call place lock active recorded sampling events ∧
        next = server.moved thread call place lock active recorded sampling events := by
    rintro next here rfl
    simp only [receive]
    split
    · exact ⟨_, _, _, _, _, _, .breaks (by rcases here with here | here <;> simp [here]),
        by simp [Server.moved, noted]⟩
    · rename_i remote
      exact ⟨_, _, _, _, _, _, .lose here remote, rfl⟩
  cases action with simp only [callStep] at stepped
  | acquire _ =>
    split at stepped
    · rename_i here free
      cases stepped
      exact ⟨_, _, _, _, _, _, .acquire here free, by simp [Server.moved, noted]⟩
    · cases stepped
  | mark _ sound =>
    split at stepped
    · rename_i here
      split_ifs at stepped
      · cases stepped
        exact ⟨_, _, _, _, _, _, .mark here, by simp [Server.moved, noted]⟩
      · cases stepped
        exact ⟨_, _, _, _, _, _, .breaks (Or.inl here), by simp [Server.moved, noted]⟩
    · cases stepped
  | dispatch _ sent =>
    split at stepped
    · rename_i here
      split_ifs at stepped
      · cases stepped
        exact ⟨_, _, _, _, _, _, .send here, rfl⟩
      · exact unanswered (Or.inl here) (some.inj stepped)
    · cases stepped
  | reply _ sample =>
    split at stepped
    · rename_i here
      cases sample with
      | none => exact unanswered (Or.inr here) (some.inj stepped)
      | some sample =>
        cases stepped
        by_cases checked : rules.checkSample call.prompt server.ack sample = true
        · exact ⟨_, _, _, _, _, _, .answer sample here checked,
            by simp [receive, checked, Server.moved, noted]⟩
        · exact ⟨_, _, _, _, _, _, .refuse here,
            by simp [receive, checked, Server.moved, noted]⟩
    · cases stepped
  | recordLost _ =>
    split at stepped
    · rename_i here
      cases stepped
      exact ⟨_, _, _, _, _, _, .note here, by simp [Server.moved, noted]⟩
    · cases stepped
  | complete _ =>
    split at stepped
    · rename_i sample here
      cases stepped
      exact ⟨_, _, _, _, _, _, .complete sample here, by simp [Server.moved, noted]⟩
    · cases stepped
  | finish _ sound =>
    split at stepped
    · rename_i sample here
      cases stepped
      cases sound
      · exact ⟨_, _, _, _, _, _, .breaks (Or.inr (Or.inr (Or.inr ⟨sample, here⟩))),
          by simp [Server.moved, noted]⟩
      · exact ⟨_, _, _, _, _, _, .finish sample here, by simp [Server.moved, noted]⟩
    · cases stepped
  | release _ =>
    split at stepped
    · rename_i result here
      cases stepped
      exact ⟨_, _, _, _, _, _, .unlock result here, by simp [Server.moved, noted]⟩
    · rename_i here
      cases stepped
      cases kind : rules.kind
      · exact ⟨_, _, _, _, _, _, .raise (.leaving none) here (Or.inr rfl),
          by simp [Server.moved, noted]⟩
      · exact ⟨_, _, _, _, _, _, .raise .raising here (Or.inl rfl), by simp [Server.moved, noted]⟩
    · cases stepped
  | look _ =>
    split at stepped
    · rename_i here
      cases stepped
      split_ifs
      · exact ⟨_, _, _, _, _, _, .look .recording here (Or.inl rfl), by simp [Server.moved, noted]⟩
      · exact ⟨_, _, _, _, _, _, .look (.leaving none) here (Or.inr rfl),
          by simp [Server.moved, noted]⟩
    · cases stepped
  | record _ =>
    split at stepped
    · rename_i here
      cases stepped
      exact ⟨_, _, _, _, _, _, .record here, by simp [Server.moved, noted]⟩
    · cases stepped
  | leave _ =>
    split at stepped
    · rename_i result here
      cases stepped
      exact ⟨_, _, _, _, _, _, .leave result here, by simp [Server.moved, noted]⟩
    · cases stepped
  | _ => cases stepped

theorem ServingRules.checkLoad_weights {artifact : Artifact} {acks : LoadAcks}
    {weights : Option PolicyAck} (checked : rules.checkLoad artifact acks = true)
    (honest : rules.truthful weights acks = true) : weights = some artifact.ack := by
  unfold checkLoad at checked
  unfold truthful at honest
  cases kind : rules.kind
  · rw [kind] at checked honest
    simp only [decide_eq_true_eq] at checked honest
    rw [← honest, checked]
  · rw [kind] at checked honest
    simp only [Bool.and_eq_true, decide_eq_true_eq] at checked honest
    rw [← honest, checked.2]

theorem controlStep_cases (stepped : server.controlStep rules action = some next) :
    ControlMoves rules server next := by
  cases action with simp only [controlStep] at stepped
  | start artifact =>
    split at stepped
    · rename_i here new
      cases stepped
      exact .start artifact here new
    · cases stepped
  | activate artifact =>
    split at stepped
    · rename_i here paused
      split_ifs at stepped with ready
      cases stepped
      exact .activate artifact here paused ready.1 ready.2
    · cases stepped
  | check =>
    split at stepped
    · rename_i artifact initial here
      cases stepped
      unfold check
      split
      · rename_i candidate accepts
        exact .accept artifact candidate initial here accepts
      · cases initial
        · exact .decline artifact here
        · exact .reject artifact here
    · cases stepped
  | loaded weights acks =>
    split at stepped
    · rename_i artifact candidate initial here
      split_ifs at stepped with honest
      cases stepped
      unfold load
      by_cases checked : (acks.any (rules.checkLoad artifact ·)) = true
      · rw [if_pos checked]
        obtain ⟨answer, rfl, passed⟩ := (any_eq_true _ _).mp checked
        rw [ServingRules.checkLoad_weights passed honest]
        exact .loads artifact candidate initial here
      · rw [if_neg checked]
        exact .loadFails artifact candidate initial weights here
    · cases stepped
  | settle cancelled =>
    split at stepped
    · rename_i here
      split_ifs at stepped
      · cases stepped
        exact .cancels here
      · cases stepped
        exact .settles here
    · cases stepped
  | pause =>
    split at stepped
    · rename_i here
      split_ifs at stepped with up
      cases stepped
      exact .pause here up
    · cases stepped
  | drain =>
    split at stepped
    · rename_i here
      split_ifs at stepped with empty
      · cases stepped
        exact .undrained here empty
      · cases stepped
        exact .drain here empty
    · cases stepped
  | paused cancelled =>
    split at stepped
    · rename_i here
      cases stepped
      exact .paused _ here
    · cases stepped
  | resume =>
    split at stepped
    · rename_i here paused
      split_ifs at stepped with empty
      cases stepped
      exact .resume here paused empty
    · cases stepped
  | close =>
    split at stepped
    · rename_i here
      cases stepped
      exact .close here
    · cases stepped
  | stop cancelled =>
    split at stepped
    · rename_i here
      by_cases empty : server.active = 0
      · rw [if_pos empty] at stepped
        split at stepped
        · cases stepped
          exact .halt none here empty (Or.inl rfl)
        · split_ifs at stepped
          · cases stepped
            exact .halt server.weights here empty (Or.inr rfl)
          · cases stepped
            exact .stop here empty
      · rw [if_neg empty] at stepped
        cases stepped
    · cases stepped
  | stopped acknowledged =>
    split at stepped
    · rename_i here
      split_ifs at stepped
      · cases stepped
        exact .stopped server.state here (Or.inl rfl)
      · cases stepped
        exact .stopped .failed here (Or.inr rfl)
    · cases stepped
  | _ => cases stepped

theorem generate_admits {payload : Payload} {requestId : Id}
    (stepped : server.generate rules payload requestId = some next) : Admits rules server next := by
  simp only [generate] at stepped
  split at stepped
  · cases stepped
  · rename_i policy artifact current
    split_ifs at stepped with ready
    split at stepped
    · rename_i prompt _
      cases stepped
      exact .generate payload requestId policy artifact prompt current ready.1 ready.2
    · cases stepped
      exact .reject payload requestId policy artifact current ready.1 ready.2

theorem sampleTokens_admits {prompt : List ℕ} {maxTokens : ℕ} {temperature : ℚ} {requestId : Id}
    (stepped : server.sampleTokens rules prompt maxTokens temperature requestId = some next) :
    Admits rules server next := by
  simp only [sampleTokens] at stepped
  split at stepped
  · cases stepped
  · rename_i policy artifact current
    split_ifs at stepped with ready
    cases stepped
    exact .sampleTokens maxTokens temperature requestId policy artifact prompt current ready.2.1
      ready.2.2.1

theorem callStep_lost {thread : ℕ} {call : Call Payload}
    (stepped : server.callStep rules thread call action = some next) (lost : call.place = .lost) :
    ∃ thread, action = .recordLost thread := by
  cases action with
  | recordLost thread => exact ⟨thread, rfl⟩
  | _ =>
    simp only [callStep, lost] at stepped
    cases stepped

/-- Some call has moved; only `recordLost` moves one that is lost. -/
def CallMoved (rules : ServingRules Payload) (server : Server Payload) (action : ServingAction Payload)
    (next : Server Payload) : Prop :=
  ∃ thread call place lock active recorded sampling events, server.calls[thread]? = some call ∧
    (call.place = .lost → ∃ thread, action = .recordLost thread) ∧
    CallMoves rules server thread call place lock active recorded sampling events ∧
    next = server.moved thread call place lock active recorded sampling events

/-- A step of a call is one of its moves. -/
theorem call_moves {thread : ℕ}
    (moved : ((server.calls[thread]?).bind fun call => server.callStep rules thread call action) = some next) :
    CallMoved rules server action next := by
  obtain ⟨call, there, moved⟩ := bind_eq_some_iff.mp moved
  obtain ⟨place, lock, active, recorded, sampling, events, moves, same⟩ := callStep_cases moved
  exact ⟨thread, call, place, lock, active, recorded, sampling, events, there, callStep_lost moved,
    moves, same⟩

/-- Every step is a request, a move of one call or a move of the control operation. -/
theorem server_step_cases (stepped : server.step rules action = some next) : Admits rules server next ∨
    CallMoved rules server action next ∨ ControlMoves rules server next := by
  cases action with
  | generate payload requestId => exact Or.inl (generate_admits stepped)
  | sampleTokens prompt maxTokens temperature requestId => exact Or.inl (sampleTokens_admits stepped)
  | acquire | mark | dispatch | reply | recordLost | complete | finish | release | look | record | leave =>
    exact Or.inr (Or.inl (call_moves stepped))
  | _ =>
    simp only [step] at stepped
    exact Or.inr (Or.inr (controlStep_cases stepped))

end Moves

/-! ### The gate and the lock -/

/-- What the state, the count and the control operation say of each other. -/
def Settled (state : ServingState) (active : ℕ) (control : ServingControl) : Prop :=
  (state = .new ∨ state = .loading → active = 0) ∧
  match control with
  | .idle | .loaded => True
  | .checking _ initial | .loading _ _ initial =>
    state = (if initial = true then .loading else .paused) ∧ active = 0
  | .pausing => state = .paused ∨ state = .failed
  | .drained => (state = .paused ∨ state = .failed) ∧ active = 0
  | .closing => state = .closed ∨ state = .failed
  | .stopping => (state = .closed ∨ state = .failed) ∧ active = 0

/-- The lock admits one call, and the gate counts the admitted ones. -/
structure Guarded (server : Server Payload) : Prop where
  lock : Locked (fun call : Call Payload => call.place.locked = true) server.calls server.samplerLock
  gate : Counted weight server.calls server.active
  settled : Settled server.state server.active server.control

variable {sampling : AList fun _ : Id => Binding} {events : List ServingEvent} {recorded : Option Bool}
  {place : CallPlace} {lock : Option ℕ}

section Guarded

variable {rules : ServingRules Payload} {server next : Server Payload} {state : ServingState}
  {active : ℕ} {control : ServingControl} {thread : ℕ} {call : Call Payload}

theorem Settled.fail (settled : Settled state active control) (inside : active ≠ 0) :
    Settled .failed active control := by
  refine ⟨fun impossible => (by rcases impossible with wrong | wrong <;> cases wrong), ?_⟩
  obtain ⟨-, holds⟩ := settled
  cases control with
  | idle | loaded => trivial
  | checking | loading | drained | stopping => exact absurd holds.2 inside
  | pausing | closing => exact Or.inr rfl

theorem Settled.drop {active' : ℕ} (settled : Settled state active control) (fewer : active' ≤ active) :
    Settled state active' control := by
  obtain ⟨early, holds⟩ := settled
  refine ⟨fun quiet => by have := early quiet; omega, ?_⟩
  cases control with
  | idle | loaded | pausing | closing => exact holds
  | checking | loading | drained | stopping => exact ⟨holds.1, by have := holds.2; omega⟩

theorem Settled.admit {active' : ℕ} (settled : Settled .running active control) :
    Settled .running active' control := by
  refine ⟨fun impossible => (by rcases impossible with wrong | wrong <;> cases wrong), ?_⟩
  obtain ⟨-, holds⟩ := settled
  cases control with
  | idle | loaded => trivial
  | checking artifact initial | loading artifact candidate initial => cases initial <;> cases holds.1
  | pausing | closing => rcases holds with wrong | wrong <;> cases wrong
  | drained | stopping => rcases holds.1 with wrong | wrong <;> cases wrong

theorem Guarded.inside (guarded : Guarded server) (there : server.calls[thread]? = some call)
    (admitted : call.place.admitted = true) : server.active ≠ 0 := by
  have counted := guarded.gate.le there
  rw [weight, if_pos admitted] at counted
  omega

theorem Guarded.outside (guarded : Guarded server) (empty : server.active = 0)
    (there : server.calls[thread]? = some call) : call.place.admitted = false := by
  by_contra admitted
  exact guarded.inside there (Bool.not_eq_false _ ▸ admitted) empty

theorem moves_admitted (moves : CallMoves rules server thread call place lock active recorded sampling events) :
    call.place.admitted = true := by
  cases moves with
  | lose here _ => rcases here with here | here <;> rw [here] <;> rfl
  | breaks here => rcases here with here | here | here | ⟨_, here⟩ <;> rw [here] <;> rfl
  | acquire here _ | mark here | send here | answer _ here _ | refuse here | note here
  | complete _ here | finish _ here | unlock _ here | raise _ here _ | look _ here _ | record here
  | leave _ here =>
    rw [here]
    rfl

theorem Guarded.fresh : Guarded (fresh Payload) where
  lock := Locked.nil
  gate := Counted.nil
  settled := ⟨fun _ => rfl, trivial⟩

section

variable (guarded : Guarded server)
include guarded

theorem Guarded.admits (admits : Admits rules server next) : Guarded next := by
  have grown : ∀ {entry requestId policy prompt sampling}, server.state = .running →
      Guarded (server.enter entry requestId policy prompt sampling) := by
    intro entry requestId policy prompt sampling running
    refine ⟨guarded.lock.spawn nofun, guarded.gate.spawn, ?_⟩
    have settled := guarded.settled
    rw [running] at settled
    change Settled server.state _ _
    rw [running]
    exact settled.admit
  cases admits with
  | generate payload requestId policy artifact prompt _ running _
  | sampleTokens maxTokens temperature requestId policy artifact prompt _ running _ => exact grown running
  | reject payload requestId policy artifact _ _ _ =>
    exact ⟨guarded.lock.spawn nofun, guarded.gate.spawn, guarded.settled⟩

theorem Guarded.keep (there : server.calls[thread]? = some call) (recorded : Option Bool)
    (admitted : call.place.admitted = true) (stays : place.admitted = true)
    (locked : Locked (fun call : Call Payload => call.place.locked = true) (server.move thread call
      place) lock) :
    Guarded (server.moved thread call place lock server.active recorded sampling events) := by
  have inside : ({ call with place := place } : Call Payload).weight = call.weight := by
    rw [weight, if_pos stays, weight, if_pos admitted]
  refine ⟨locked, guarded.gate.move there (by rw [inside]; rfl), ?_⟩
  cases recorded with
  | none => exact guarded.settled
  | some uncertain => exact guarded.settled.fail (guarded.inside there admitted)

theorem Guarded.moved (there : server.calls[thread]? = some call) {active : ℕ}
    (moves : CallMoves rules server thread call place lock active recorded sampling events) :
    Guarded (server.moved thread call place lock active recorded sampling events) := by
  have admitted := moves_admitted moves
  cases moves with
  | acquire here free =>
    have unlocked := guarded.lock
    rw [free] at unlocked
    exact guarded.keep there none admitted rfl (unlocked.enter there rfl)
  | mark here | send here | answer _ here _ | refuse here | complete _ here | finish _ here =>
    exact guarded.keep there none admitted rfl
      (guarded.lock.stay there (by rw [here]; exact Iff.rfl))
  | lose here _ =>
    rcases here with here | here <;>
      exact guarded.keep there none admitted rfl
        (guarded.lock.stay there (by rw [here]; exact Iff.rfl))
  | breaks here =>
    rcases here with here | here | here | ⟨sample, here⟩ <;>
      exact guarded.keep there none admitted rfl
        (guarded.lock.stay there (by rw [here]; exact Iff.rfl))
  | note here =>
    exact guarded.keep there (some true) admitted rfl
      (guarded.lock.stay there (by rw [here]; exact Iff.rfl))
  | unlock result here =>
    exact guarded.keep there none admitted rfl
      (guarded.lock.leave there (by rw [here]; rfl) nofun)
  | raise place here ends =>
    rcases ends with rfl | rfl <;>
      exact guarded.keep there none admitted rfl
        (guarded.lock.leave there (by rw [here]; rfl) nofun)
  | look place here ends =>
    rcases ends with rfl | rfl <;>
      exact guarded.keep there none admitted rfl
        (guarded.lock.stay there (by rw [here]; exact Iff.rfl))
  | record here =>
    exact guarded.keep there (some false) admitted rfl
      (guarded.lock.stay there (by rw [here]; exact Iff.rfl))
  | leave result here =>
    have inside := guarded.inside there admitted
    refine ⟨guarded.lock.stay there (by rw [here]; exact Iff.rfl), guarded.gate.move there ?_,
      guarded.settled.drop (Nat.sub_le _ _)⟩
    rw [weight, if_pos admitted]
    change server.active - 1 + 1 = server.active + 0
    omega

theorem Guarded.controls (controls : ControlMoves rules server next) : Guarded next := by
  obtain ⟨early, holds⟩ := guarded.settled
  have failed : Settled .failed server.active .idle :=
    ⟨fun impossible => (by rcases impossible with wrong | wrong <;> cases wrong), trivial⟩
  cases controls with
  | start artifact here new =>
    have empty := early (Or.inl new)
    exact ⟨guarded.lock, guarded.gate, fun _ => empty, rfl, empty⟩
  | activate artifact here paused _ empty => exact ⟨guarded.lock, guarded.gate, early, paused, empty⟩
  | accept artifact candidate initial here accepts =>
    rw [here] at holds
    exact ⟨guarded.lock, guarded.gate, early, holds⟩
  | reject | loadFails | cancels => exact ⟨guarded.lock, guarded.gate, failed⟩
  | decline | settles | undrained | paused | halt => exact ⟨guarded.lock, guarded.gate, early, trivial⟩
  | loads artifact candidate initial here | stopped state here ends =>
    rw [here] at holds
    exact ⟨guarded.lock, guarded.gate, fun _ => holds.2, trivial⟩
  | pause | close =>
    exact ⟨guarded.lock, guarded.gate,
      fun impossible => (by rcases impossible with wrong | wrong <;> cases wrong), Or.inl rfl⟩
  | drain here empty | stop here empty =>
    rw [here] at holds
    exact ⟨guarded.lock, guarded.gate, early, holds, empty⟩
  | resume here paused empty =>
    refine ⟨guarded.lock, guarded.gate, fun _ => empty, ?_⟩
    simp only [here]

theorem Guarded.step (stepped : server.step rules action = some next) : Guarded next := by
  rcases server_step_cases stepped with admits |
    ⟨thread, call, place, lock, active, recorded, sampling, events, there, -, moves, rfl⟩ | controls
  · exact guarded.admits admits
  · exact guarded.moved there moves
  · exact guarded.controls controls

theorem controls_stay (controls : ControlMoves rules server next)
    (down : server.state = .failed ∨ server.state = .closed) :
    next.state = .failed ∨ next.state = .closed := by
  obtain ⟨-, holds⟩ := guarded.settled
  -- The state is none that a move needs.
  have apart : ∀ {state : ServingState}, state ≠ .failed → state ≠ .closed → server.state ≠ state := by
    rintro state unfailed opened rfl
    exact down.elim unfailed opened
  cases controls with
  | start artifact here new => exact absurd new (apart (by decide) (by decide))
  | activate artifact here paused _ _ | resume here paused empty =>
    exact absurd paused (apart (by decide) (by decide))
  | loads artifact candidate initial here =>
    rw [here] at holds
    refine absurd holds.1 (apart ?_ ?_) <;> cases initial <;> decide
  | pause here up =>
    rcases up with same | same
    all_goals exact absurd same (apart (by decide) (by decide))
  | reject _ _ | loadFails _ _ _ _ _ | cancels _ => exact Or.inl rfl
  | close here => exact Or.inr rfl
  | stopped state here ends =>
    rcases ends with rfl | rfl
    · exact down
    · exact Or.inl rfl
  | _ => exact down

end

end Guarded

/-! ### Request identities -/

/-- The request that an event issues to the model. -/
def ServingEvent.issued? : ServingEvent → Option Id
  | .issued _ requestId => some requestId
  | _ => none

def Server.issued (server : Server Payload) : List Id := server.log.filterMap ServingEvent.issued?

def CallPlace.early : CallPlace → Bool
  | .waiting | .holding | .marked => true
  | _ => false

/-- Every admitted request belongs to one call, and is sampled by it at most once. -/
def Distinct (server : Server Payload) : Prop :=
  Once (fun call : Call Payload => call.place.early = true) (fun call => [call.requestId]) server.calls
    server.seen server.issued

section Distinct

variable {rules : ServingRules Payload} {server next : Server Payload} {thread : ℕ} {call : Call Payload}

theorem Distinct.fresh : Distinct (fresh Payload) := nil

theorem Server.issued_append (events : List ServingEvent)
    (nothing : events.filterMap ServingEvent.issued? = []) :
    (server.log ++ events).filterMap ServingEvent.issued? = server.issued := by
  rw [filterMap_append, nothing, append_nil]
  rfl

section

variable (distinct : Distinct server)
include distinct

theorem Distinct.admits (admits : Admits rules server next) : Distinct next := by
  have grown : ∀ {entry requestId policy prompt sampling}, requestId ∉ server.seen →
      Distinct (server.enter entry requestId policy prompt sampling) := by
    intro entry requestId policy prompt sampling unseen
    unfold Distinct issued
    rw [enter, issued_append _ rfl]
    exact spawn distinct (nodup_singleton _) fun id own =>
      mem_singleton.mp own ▸ unseen
  cases admits with
  | generate payload requestId policy artifact prompt _ _ unseen
  | sampleTokens maxTokens temperature requestId policy artifact prompt _ _ unseen => exact grown unseen
  | reject payload requestId policy artifact _ _ _ =>
    exact spawnLate distinct nofun

theorem Distinct.moved (there : server.calls[thread]? = some call) {active : ℕ}
    (moves : CallMoves rules server thread call place lock active recorded sampling events) :
    Distinct (server.moved thread call place lock active recorded sampling events) := by
  have seen : (server.noted recorded).seen = server.seen := by cases recorded <;> rfl
  -- A move that issues nothing.
  have quiet : (place.early = true → call.place.early = true) →
      events.filterMap ServingEvent.issued? = [] →
      Distinct (server.moved thread call place lock active recorded sampling events) := by
    intro later nothing
    unfold Distinct issued
    rw [Server.moved, issued_append _ nothing]
    change Once _ _ _ (server.noted recorded).seen _
    rw [seen]
    exact move distinct there rfl later
  cases moves with
  | acquire here _ | mark here => exact quiet (fun _ => by rw [here]; rfl) rfl
  | send here =>
    have grown : (server.log ++ [ServingEvent.issued thread call.requestId]).filterMap
        ServingEvent.issued? = server.issued ++ [call.requestId] := by
      rw [filterMap_append]
      rfl
    unfold Distinct issued
    rw [Server.moved, grown]
    exact serve distinct there (by rw [here]; rfl) nofun
  | lose _ _ | answer _ _ _ | refuse _ | breaks _ | note _ | complete _ _ | finish _ _ | unlock _ _
  | record _ | leave _ _ => exact quiet nofun rfl
  | raise place _ ends | look place _ ends =>
    rcases ends with rfl | rfl <;> exact quiet nofun rfl

theorem Distinct.controls (controls : ControlMoves rules server next) : Distinct next := by
  have failed : (server.log ++ [ServingEvent.updateFailed]).filterMap ServingEvent.issued?
      = server.issued := issued_append _ rfl
  cases controls with
  | reject _ _ | loadFails _ _ _ _ _ | cancels _ =>
    unfold Distinct issued
    rw [failed]
    exact distinct
  | _ => exact distinct

end

end Distinct

/-! ### Policies -/

def CallPlace.evidence? : CallPlace → Option Evidence
  | .finished (.completion evidence) | .leaving (some (.completion evidence))
  | .over (some (.completion evidence)) => some evidence
  | _ => none

/-- A policy serves: no load is in progress. -/
def Server.Serves (server : Server Payload) : Prop :=
  server.state = .running ∨ server.state = .paused ∧
    ∀ (artifact : Artifact) (candidate : Policy) (initial : Bool),
      server.control ≠ .loading artifact candidate initial

/-- The weights are those of the policy of every admitted call, and evidence is bound to that policy. -/
structure Bound (server : Server Payload) : Prop where
  leased : Each (fun _ call => call.place.admitted = true → server.weights = some call.policy.ack)
    server.calls
  serving : server.Serves → ∃ policy artifact, server.current = some (policy, artifact) ∧
    server.weights = some policy.ack
  candidate : ∀ artifact candidate initial, server.control = .loading artifact candidate initial →
    candidate.ack = artifact.ack
  evidenced : Each (fun _ call => ∀ evidence ∈ call.place.evidence?,
    evidence.policy = call.policy ∧ evidence.requestId = call.requestId) server.calls

section Bound

variable {rules : ServingRules Payload} {server next : Server Payload} {thread : ℕ} {call : Call Payload}

theorem Bound.fresh : Bound (fresh Payload) where
  leased := Each.nil
  serving := fun serves => by rcases serves with impossible | ⟨impossible, -⟩ <;> cases impossible
  candidate := nofun
  evidenced := Each.nil

theorem checkArtifact_ack {active : Option (Policy × Artifact)} {artifact : Artifact}
    {candidate : Policy} (accepts : rules.checkArtifact active artifact = some candidate) :
    candidate.ack = artifact.ack :=
  Policy.of_ack (filter_eq_some_iff.mp accepts).1

section

variable (bound : Bound server)
include bound

theorem Bound.admits (admits : Admits rules server next) : Bound next := by
  have grown : ∀ {entry requestId policy artifact prompt sampling}, server.state = .running →
      server.current = some (policy, artifact) →
      Bound (server.enter entry requestId policy prompt sampling) := by
    intro entry requestId policy artifact prompt sampling running current
    obtain ⟨policy', artifact', current', loaded⟩ := bound.serving (Or.inl running)
    rw [current] at current'
    cases current'
    exact ⟨bound.leased.spawn fun _ => loaded, bound.serving, bound.candidate,
      bound.evidenced.spawn nofun⟩
  cases admits with
  | generate payload requestId policy artifact prompt current running _
  | sampleTokens maxTokens temperature requestId policy artifact prompt current running _ =>
    exact grown running current
  | reject payload requestId policy artifact _ _ _ =>
    exact ⟨bound.leased.spawn nofun, bound.serving, bound.candidate, bound.evidenced.spawn nofun⟩

theorem Bound.move (there : server.calls[thread]? = some call) (admitted : call.place.admitted = true)
    (evidenced : ∀ evidence ∈ place.evidence?, evidence.policy = call.policy ∧ evidence.requestId =
      call.requestId) {active : ℕ} :
    Bound (server.moved thread call place lock active recorded sampling events) := by
  have leased : Each (fun _ call => call.place.admitted = true →
      server.weights = some call.policy.ack) (server.move thread call place) :=
    bound.leased.move fun _ => bound.leased thread call there admitted
  cases recorded with
  | none => exact ⟨leased, bound.serving, bound.candidate, bound.evidenced.move evidenced⟩
  | some uncertain =>
    refine ⟨leased, fun serves => ?_, bound.candidate, bound.evidenced.move evidenced⟩
    rcases serves with wrong | ⟨wrong, -⟩ <;> cases wrong

theorem Bound.moved (there : server.calls[thread]? = some call) {active : ℕ}
    (moves : CallMoves rules server thread call place lock active recorded sampling events) :
    Bound (server.moved thread call place lock active recorded sampling events) := by
  -- What the call has made so far.
  have kept : ∀ {place'}, call.place = place' → ∀ evidence ∈ place'.evidence?,
      evidence.policy = call.policy ∧ evidence.requestId = call.requestId := by
    rintro place' rfl
    exact bound.evidenced thread call there
  have admitted := moves_admitted moves
  have nothing : place.evidence? = none →
      Bound (server.moved thread call place lock active recorded sampling events) := fun none =>
    bound.move there admitted (by simp [none])
  cases moves with
  | finish sample here =>
    refine bound.move there admitted fun evidence made => ?_
    unfold result at made
    split at made
    · cases made
    · cases made
      exact ⟨rfl, rfl⟩
  | unlock result here =>
    refine bound.move there admitted fun evidence made => kept here evidence ?_
    cases result
    · exact made
    · exact made
  | raise place here ends | look place here ends => rcases ends with rfl | rfl <;> exact nothing rfl
  | leave result here =>
    refine bound.move there admitted fun evidence made => kept here evidence ?_
    cases result with
    | none => exact made
    | some result => cases result <;> exact made
  | _ => exact nothing rfl

theorem Bound.controls (guarded : Guarded server) (controls : ControlMoves rules server next) :
    Bound next := by
  obtain ⟨-, holds⟩ := guarded.settled
  -- No call is admitted while the weights change.
  have outside : server.active = 0 → ∀ weights : Option PolicyAck,
      Each (fun _ call => call.place.admitted = true → weights = some call.policy.ack)
        server.calls := by
    intro empty weights thread call there admitted
    rw [guarded.outside empty there] at admitted
    cases admitted
  have stopped : ∀ {state : ServingState} {control : ServingControl},
      state = .failed ∨ state = .closed ∨ state = .loading →
      ¬ (state = .running ∨ state = .paused ∧ ∀ (artifact : Artifact) (candidate : Policy)
        (initial : Bool), control ≠ .loading artifact candidate initial) := by
    rintro state control ends (rfl | ⟨rfl, -⟩) <;> rcases ends with wrong | wrong | wrong <;> cases wrong
  have idle : ∀ (artifact : Artifact) (candidate : Policy) (initial : Bool),
      ServingControl.idle ≠ .loading artifact candidate initial :=
    nofun
  cases controls with
  | start artifact here new =>
    exact ⟨bound.leased, fun serves => absurd serves (stopped (Or.inr (Or.inr rfl))),
      nofun, bound.evidenced⟩
  | activate artifact here paused _ empty =>
    exact ⟨bound.leased, fun _ => bound.serving (Or.inr ⟨paused, by rw [here]; exact idle⟩),
      nofun, bound.evidenced⟩
  | accept artifact candidate initial here accepts =>
    rw [here] at holds
    refine ⟨outside holds.2 none, fun serves => ?_, ?_, bound.evidenced⟩
    · rcases serves with running | ⟨-, wrong⟩
      · have before : server.state = .running := running
        rw [holds.1] at before
        cases initial <;> cases before
      · exact absurd rfl (wrong artifact candidate initial)
    · rintro _ _ _ same
      cases same
      exact checkArtifact_ack accepts
  | reject | cancels =>
    exact ⟨bound.leased, fun serves => absurd serves (stopped (Or.inl rfl)), nofun, bound.evidenced⟩
  | decline artifact here =>
    rw [here] at holds
    exact ⟨bound.leased, fun _ => bound.serving (Or.inr ⟨holds.1, fun _ _ _ same => by
      rw [here] at same; cases same⟩), nofun, bound.evidenced⟩
  | loads artifact candidate initial here =>
    rw [here] at holds
    refine ⟨outside holds.2 _, fun _ => ⟨candidate, artifact, rfl, ?_⟩, nofun, bound.evidenced⟩
    change some artifact.ack = some candidate.ack
    rw [bound.candidate artifact candidate initial here]
  | loadFails artifact candidate initial weights here =>
    rw [here] at holds
    exact ⟨outside holds.2 weights, fun serves => absurd serves (stopped (Or.inl rfl)),
      nofun, bound.evidenced⟩
  | settles here | drain here _ | undrained here _ | paused _ here =>
    refine ⟨bound.leased, fun serves => bound.serving ?_, nofun, bound.evidenced⟩
    exact serves.imp id fun paused => ⟨paused.1, fun _ _ _ same => by rw [here] at same; cases same⟩
  | pause here up =>
    refine ⟨bound.leased, fun _ => bound.serving ?_, nofun, bound.evidenced⟩
    exact up.imp id fun paused => ⟨paused, by rw [here]; exact idle⟩
  | resume here paused empty =>
    exact ⟨bound.leased, fun _ => bound.serving (Or.inr ⟨paused, by rw [here]; exact idle⟩),
      bound.candidate, bound.evidenced⟩
  | close here =>
    exact ⟨bound.leased, fun serves => absurd serves (stopped (Or.inr (Or.inl rfl))),
      nofun, bound.evidenced⟩
  | halt weights here empty drops =>
    rw [here] at holds
    exact ⟨outside empty weights, fun serves => absurd serves (stopped (holds.symm.imp id Or.inl)),
      nofun, bound.evidenced⟩
  | stop here empty =>
    rw [here] at holds
    exact ⟨bound.leased, fun serves => absurd serves (stopped (holds.symm.imp id Or.inl)),
      nofun, bound.evidenced⟩
  | stopped state here ends =>
    rw [here] at holds
    refine ⟨outside holds.2 none, fun serves => absurd serves (stopped ?_), nofun, bound.evidenced⟩
    rcases ends with rfl | rfl
    · exact holds.1.symm.imp id Or.inl
    · exact Or.inl rfl

end

end Bound

/-! ### Failed loads -/

/-- A load has failed, or its waiter was cancelled. -/
def ServingEvent.isUpdateFailure : ServingEvent → Bool
  | .updateFailed => true
  | _ => false

def ServingEvent.isAdmission : ServingEvent → Bool
  | .admitted _ _ => true
  | _ => false

/-- Behind a failed load no call is admitted: the controller does not run again. -/
structure Stopped (server : Server Payload) : Prop where
  latch : Latch ServingEvent.isUpdateFailure ServingEvent.isAdmission server.log
  stays : (∃ event ∈ server.log, event.isUpdateFailure = true) →
    server.state = .failed ∨ server.state = .closed

section Stopped

variable {rules : ServingRules Payload} {server next : Server Payload} {thread : ℕ} {call : Call Payload}

theorem Stopped.fresh : Stopped (fresh Payload) where
  latch := Latch.nil
  stays := fun ⟨_, impossible, _⟩ => by cases impossible

section

variable (stopped : Stopped server)
include stopped

theorem Stopped.admits (admits : Admits rules server next) : Stopped next := by
  have grown : ∀ {entry requestId policy prompt sampling}, server.state = .running →
      Stopped (server.enter entry requestId policy prompt sampling) := by
    intro entry requestId policy prompt sampling running
    have calm : ∀ event ∈ server.log, event.isUpdateFailure = false := by
      intro event mem
      by_contra failure
      rcases stopped.stays ⟨event, mem, Bool.not_eq_false _ ▸ failure⟩ with same | same <;>
        rw [running] at same <;> cases same
    refine ⟨stopped.latch.calm calm, fun happened => stopped.stays (triggered_append ?_ happened)⟩
    intro event mem
    rw [mem_singleton.mp mem]
    rfl
  cases admits with
  | generate payload requestId policy artifact prompt _ running _
  | sampleTokens maxTokens temperature requestId policy artifact prompt _ running _ => exact grown running
  | reject payload requestId policy artifact _ _ _ => exact ⟨stopped.latch, stopped.stays⟩

theorem Stopped.moved {active : ℕ}
    (moves : CallMoves rules server thread call place lock active recorded sampling events) :
    Stopped (server.moved thread call place lock active recorded sampling events) := by
  have quiet : ∀ event ∈ events, event.isUpdateFailure = false ∧ event.isAdmission = false := by
    intro event mem
    cases moves with
    | send _ | lose _ _ | answer _ _ _ | refuse _ =>
      rw [mem_singleton.mp mem]
      exact ⟨rfl, rfl⟩
    | _ => cases mem
  refine ⟨stopped.latch.quiet fun event mem => (quiet event mem).2, fun happened => ?_⟩
  have before := stopped.stays (triggered_append (fun event mem => (quiet event mem).1) happened)
  cases recorded with
  | none => exact before
  | some uncertain => exact Or.inl rfl

theorem Stopped.controls (guarded : Guarded server) (controls : ControlMoves rules server next) :
    Stopped next := by
  have fails : Latch ServingEvent.isUpdateFailure ServingEvent.isAdmission
      (server.log ++ [.updateFailed]) := stopped.latch.quiet fun event mem => by
    rw [mem_singleton.mp mem]
    rfl
  have stays := controls_stay guarded controls
  cases controls with
  | reject _ _ | loadFails _ _ _ _ _ | cancels _ => exact ⟨fails, fun _ => Or.inl rfl⟩
  | _ => exact ⟨stopped.latch, fun happened => stays (stopped.stays happened)⟩

end

end Stopped

/-! ### All runs -/

section Runs

variable {rules : ServingRules Payload} {server next : Server Payload}
  {guard : Server Payload → ServingAction Payload → Prop}

theorem server_sound (reached : (serverSystem rules).Reachable guard server) :
    Guarded server ∧ Distinct server ∧ Bound server ∧ Stopped server := by
  refine reached.invariant
    (fun server => Guarded server ∧ Distinct server ∧ Bound server ∧ Stopped server) ?_ ?_
  · rintro start rfl
    exact ⟨Guarded.fresh, Distinct.fresh, Bound.fresh, Stopped.fresh⟩
  · rintro before action after - stepped ⟨guarded, distinct, bound, stopped⟩
    refine ⟨guarded.step stepped, ?_⟩
    rcases server_step_cases stepped with admits |
      ⟨thread, call, place, lock, active, recorded, sampling, events, there, -, moves, rfl⟩ | controls
    · exact ⟨distinct.admits admits, bound.admits admits, stopped.admits admits⟩
    · exact ⟨distinct.moved there moves, bound.moved there moves, stopped.moved moves⟩
    · exact ⟨distinct.controls controls, bound.controls guarded controls,
        stopped.controls guarded controls⟩

theorem call_leads {later : Server Payload} (path : (serverSystem rules).Leads guard server later)
    {thread : ℕ} {call : Call Payload} (there : server.calls[thread]? = some call) :
    ∃ call', later.calls[thread]? = some call' ∧ call'.requestId = call.requestId ∧
      call'.policy = call.policy := by
  refine path.preserves (fun later => ∃ call', later.calls[thread]? = some call' ∧
    call'.requestId = call.requestId ∧ call'.policy = call.policy) ?_ ⟨call, there, rfl, rfl⟩
  rintro before action after - stepped ⟨found, here, request, policy⟩
  rcases server_step_cases stepped with admits |
    ⟨other, moved, place, lock, active, recorded, sampling, events, at_, -, moves, rfl⟩ | controls
  · cases admits <;> exact ⟨found, spawn_old here, request, policy⟩
  · by_cases same : thread = other
    · subst same
      rw [here] at at_
      cases at_
      exact ⟨_, move_self here, request, policy⟩
    · exact ⟨found, (move_other same).trans here, request, policy⟩
  · cases controls <;> exact ⟨found, here, request, policy⟩

/-- The weights change only while no call is admitted: in a load from the paused state, in the first
load, or when the model is dropped behind a `close`. -/
theorem weights_change (guarded : Guarded server) (stepped : server.step rules action = some next)
    (changes : next.weights ≠ server.weights) :
    (∀ call ∈ server.calls, call.place.admitted = false) ∧
      (server.state = .paused ∨ server.state = .loading ∨ next.weights = none) := by
  obtain ⟨-, holds⟩ := guarded.settled
  have outside : server.active = 0 → ∀ call ∈ server.calls, call.place.admitted = false := by
    intro empty call mem
    obtain ⟨thread, there⟩ := mem_iff_getElem?.mp mem
    exact guarded.outside empty there
  -- A load begins and ends in the state of its control operation.
  have loads : ∀ {initial : Bool}, server.state = (if initial = true then .loading else .paused) →
      server.state = .paused ∨ server.state = .loading ∨ next.weights = none := by
    intro initial same
    cases initial
    · exact Or.inl same
    · exact Or.inr (Or.inl same)
  rcases server_step_cases stepped with admits |
    ⟨thread, call, place, lock, active, recorded, sampling, events, at_, -, moves, rfl⟩ | controls
  · cases admits <;> exact absurd rfl changes
  · cases recorded <;> exact absurd rfl changes
  · cases controls with
    | accept artifact candidate initial here _ | loads artifact candidate initial here
    | loadFails artifact candidate initial weights here =>
      rw [here] at holds
      exact ⟨outside holds.2, loads holds.1⟩
    | halt weights here empty drops =>
      rcases drops with rfl | rfl
      · exact ⟨outside empty, Or.inr (Or.inr rfl)⟩
      · exact absurd rfl changes
    | stopped state here ends =>
      rw [here] at holds
      exact ⟨outside holds.2, Or.inr (Or.inr rfl)⟩
    | _ => exact absurd rfl changes

end Runs

/-- Over every run of either controller: while a call samples, the loaded weights are those of the policy
that its evidence will record; the weights change only while no call is admitted, from the paused state
if a policy was loaded before; an activation is prepared only behind a drain, with no call admitted; no
request is sampled twice; and behind a failed load no call is admitted. -/
theorem server_accounts (rules : ServingRules Payload) (server : Server Payload)
    (reached : (serverSystem rules).Reachable System.always server) :
    (∀ (thread : ℕ) (call : Call Payload), server.calls[thread]? = some call → call.place = .calling →
      ∀ later, (serverSystem rules).Leads System.always server later →
        ∀ call', later.calls[thread]? = some call' → ∀ evidence ∈ call'.place.evidence?,
          server.weights = some evidence.policy.ack ∧ evidence.requestId = call.requestId) ∧
    (∀ action next, server.step rules action = some next → next.weights ≠ server.weights →
      (∀ call ∈ server.calls, call.place.admitted = false) ∧
        (server.state = .paused ∨ server.state = .loading ∨ next.weights = none)) ∧
    (∀ artifact next, server.step rules (.activate artifact) = some next →
      server.state = .paused ∧ server.drained = true ∧
        ∀ call ∈ server.calls, call.place.admitted = false) ∧
    server.issued.Nodup ∧
    server.log.Pairwise fun earlier later =>
      earlier.isUpdateFailure = true → later.isAdmission = false := by
  obtain ⟨guarded, distinct, bound, stopped⟩ := server_sound reached
  refine ⟨?_, fun action next stepped changes => ?_, ?_, distinct.once, stopped.latch⟩
  · intro thread call there calling later path call' there' evidence made
    obtain ⟨found, here, request, policy⟩ := call_leads path there
    rw [there'] at here
    cases here
    obtain ⟨-, -, bound', -⟩ := server_sound (reached.leads path)
    have leased := bound.leased thread call there (by rw [calling]; rfl)
    obtain ⟨same, own⟩ := bound'.evidenced thread call' there' evidence made
    rw [same, policy, own, request]
    exact ⟨leased, rfl⟩
  · exact weights_change guarded stepped changes
  · intro artifact next stepped
    simp only [step, controlStep] at stepped
    split at stepped
    · rename_i here paused
      split_ifs at stepped with ready
      refine ⟨paused, ready.1, fun call member => ?_⟩
      obtain ⟨thread, there⟩ := mem_iff_getElem?.mp member
      exact guarded.outside ready.2 there
    · cases stepped

/-! ### One generation -/

def oneServer (kind : ServingKind) : ServingRules Unit :=
  ⟨kind, ⟨1, 8, 32⟩, [("tokenizer_sha256", "t")], id, fun _ => true, fun _ _ => some [1], fun _ => 4,
    fun _ => "payload"⟩

def firstArtifact : Artifact :=
  ⟨0, "0000000000000000000000000000000000000000000000000000000000000000", "lineage", "identity", 1⟩

def oneSample : SampleReply :=
  ⟨[1], [2], [0], "stop", 0, "sampled_distribution", ⟨some 0, some 0, some 0, some 1⟩,
    some firstArtifact.ack⟩

def serves : List (ServingAction Unit) :=
  [.start firstArtifact, .check, .loaded (some firstArtifact.ack)
    (some ⟨some firstArtifact.ack, some firstArtifact.ack, some firstArtifact.ack⟩), .settle false]

def samples : List (ServingAction Unit) :=
  [.generate () sampleId, .acquire 0, .mark 0 true, .dispatch 0 true]

def answers : List (ServingAction Unit) :=
  [.reply 0 (some oneSample), .complete 0, .finish 0 true, .release 0, .leave 0]

theorem generation_samples : ((serverSystem (oneServer .vllm)).run System.always (fresh Unit)
    (serves ++ samples)).map (fun server => (server.issued, server.calls.map fun call =>
      match call.place with
      | .calling => true
      | _ => false)) = some ([sampleId], [true]) := by
  decide +kernel

theorem generation_answers : ((serverSystem (oneServer .vllm)).run System.always (fresh Unit)
    (serves ++ samples)).bind (fun server =>
      ((serverSystem (oneServer .vllm)).run System.always server answers).map fun later =>
        later.calls.map fun call => call.place.evidence?.map (·.policy.ack))
    = some [some firstArtifact.ack] := by
  decide +kernel

theorem server_accounts_generation : ∃ server : Server Unit,
    (serverSystem (oneServer .vllm)).Reachable System.always server ∧ server.issued = [sampleId] ∧
      server.issued.Nodup ∧ server.weights = some firstArtifact.ack := by
  obtain ⟨server, finish, same⟩ := map_eq_some_iff.mp generation_samples
  have reached := System.reachable_of_run rfl finish
  obtain ⟨bound, -, -, once, -⟩ := server_accounts (oneServer .vllm) server reached
  simp only [Prod.mk.injEq] at same
  obtain ⟨call, rest, all, calling, -⟩ := map_eq_cons_iff.mp same.2
  have there : server.calls[0]? = some call := by
    rw [all]
    rfl
  have answered := generation_answers
  rw [finish, bind_some] at answered
  obtain ⟨later, path, evidenced⟩ := map_eq_some_iff.mp answered
  obtain ⟨call', rest', all', made, -⟩ := map_eq_cons_iff.mp evidenced
  obtain ⟨evidence, found, ack⟩ := map_eq_some_iff.mp made
  have place : call.place = .calling := by
    split at calling
    · assumption
    · cases calling
  have there' : later.calls[0]? = some call' := by
    rw [all']
    rfl
  obtain ⟨weights, -⟩ := bound 0 call there place later (System.leads_of_run path) call' there'
    evidence found
  exact ⟨server, reached, same.1, once, ack ▸ weights⟩

end TinyDSV41.Serving
