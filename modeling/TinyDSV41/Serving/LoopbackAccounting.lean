/-
**What the handlers of the shim own.**

A handler is the only one that calls `generate` for its request, and it answers when its call has ended.
The shim counts its handlers until they release their requests.

* `LoopbackMoves`, `loopback_step_cases` — what one step of the shim, its handlers and its controller does.
* `Wired` — the handlers, their requests and their calls.
* `Wired.sole` — two calls of `generate` have two requests.
-/

import TinyDSV41.Serving.Loopback
import TinyDSV41.Serving.PolicyAccounting

namespace TinyDSV41.Serving

open Lib Lib.Threads Handler Loopback Option List
open Relay (Id)

variable {Payload : Type}

/-! ### The calls of a controller -/

/-- A call of `generate`. -/
def Call.generates (call : Call Payload) : Bool :=
  match call.entry with
  | .generate _ => true
  | .sampleTokens _ _ => false

section Calls

variable {rules : ServingRules Payload} {server next : Server Payload} {thread : ℕ}
  {call : Call Payload} {action : ServingAction Payload}

/-- A call that `generate` starts. -/
theorem generate_calls {payload : Payload} {requestId : Id}
    (entered : server.generate rules payload requestId = some next) :
    ∃ policy prompt place, next.calls
      = server.calls ++ [⟨.generate payload, requestId, policy, prompt, place⟩] := by
  simp only [Server.generate] at entered
  split at entered
  · cases entered
  · rename_i policy artifact current
    split_ifs at entered
    split at entered
    · rename_i prompt _
      cases entered
      exact ⟨policy, prompt, .waiting, rfl⟩
    · cases entered
      exact ⟨policy, [], .over none, rfl⟩

/-- A call that `sample_tokens` starts. -/
theorem sampleTokens_calls {prompt : List ℕ} {maxTokens : ℕ} {temperature : ℚ} {requestId : Id}
    (entered : server.sampleTokens rules prompt maxTokens temperature requestId = some next) :
    ∃ call : Call Payload, call.generates = false ∧ next.calls = server.calls ++ [call] := by
  simp only [Server.sampleTokens] at entered
  split at entered
  · cases entered
  · split_ifs at entered
    cases entered
    exact ⟨_, rfl, rfl⟩

theorem calls_stay (stepped : server.step rules action = some next)
    (there : server.calls[thread]? = some call) :
    ∃ call', next.calls[thread]? = some call' ∧ call'.entry = call.entry ∧
      call'.requestId = call.requestId := by
  rcases server_step_cases stepped with admits |
    ⟨other, moved, place, lock, active, recorded, sampling, events, at_, -, moves, rfl⟩ | controls
  · cases admits <;> exact ⟨call, spawn_old there, rfl, rfl⟩
  · by_cases same : thread = other
    · subst same
      rw [there] at at_
      cases at_
      exact ⟨_, move_self there, rfl, rfl⟩
    · exact ⟨call, (move_other same).trans there, rfl, rfl⟩
  · cases controls <;> exact ⟨call, there, rfl, rfl⟩

/-- Only `generate` starts a call of its kind. -/
theorem calls_come (stepped : server.step rules action = some next)
    (plain : ∀ payload requestId, action ≠ .generate payload requestId)
    (there : next.calls[thread]? = some call) (generates : call.generates = true) :
    ∃ before, server.calls[thread]? = some before ∧ before.entry = call.entry ∧
      before.requestId = call.requestId := by
  have moved : ∀ {other : ℕ},
      ((server.calls[other]?).bind fun call => server.callStep rules other call action) = some next →
      ∃ before, server.calls[thread]? = some before ∧ before.entry = call.entry ∧
        before.requestId = call.requestId := by
    intro other moved
    obtain ⟨found, at_, moved⟩ := bind_eq_some_iff.mp moved
    obtain ⟨place, lock, active, recorded, sampling, events, -, rfl⟩ := callStep_cases moved
    rcases Cells.getElem?_set_cases there with ⟨rfl, rfl⟩ | ⟨-, before⟩
    · exact ⟨found, at_, rfl, rfl⟩
    · exact ⟨call, before, rfl, rfl⟩
  cases action with
  | generate payload requestId => exact absurd rfl (plain payload requestId)
  | sampleTokens prompt maxTokens temperature requestId =>
    obtain ⟨started, tokens, grown⟩ := sampleTokens_calls stepped
    rw [grown] at there
    rcases spawn_cases there with ⟨-, rfl⟩ | before
    · rw [tokens] at generates
      cases generates
    · exact ⟨call, before, rfl, rfl⟩
  | acquire _ | mark _ _ | dispatch _ _ | reply _ _ | recordLost _ | complete _ | finish _ _
  | release _ | look _ | record _ | leave _ => exact moved stepped
  | _ =>
    simp only [Server.step] at stepped
    cases controlStep_cases stepped <;> exact ⟨call, there, rfl, rfl⟩

theorem over_stays (stepped : server.step rules action = some next)
    (there : server.calls[thread]? = some call) (ended : call.place.admitted = false) :
    next.calls[thread]? = some call := by
  rcases server_step_cases stepped with admits |
    ⟨other, moved, place, lock, active, recorded, sampling, events, at_, -, moves, rfl⟩ | controls
  · cases admits <;> exact spawn_old there
  · by_cases same : thread = other
    · subst same
      rw [there] at at_
      cases at_
      rw [moves_admitted moves] at ended
      cases ended
    · exact (move_other same).trans there
  · cases controls <;> exact there

end Calls

/-! ### Steps of the shim -/

def HandlerPlace.final : HandlerPlace → Bool
  | .answered _ | .released _ => true
  | _ => false

/-- What a step of a handler without an answer of its own makes of the shim. -/
def Loopback.walked (loopback : Loopback Payload) (index : ℕ) (handler : Handler Payload)
    (place : HandlerPlace) (active : ℕ) : Loopback Payload := { loopback with
  active := active
  handlers := loopback.move index handler place }

/-- One move of the shim, of a handler or of the controller. -/
inductive LoopbackMoves (rules : ServingRules Payload) (loopback : Loopback Payload)
    (taken : LoopbackAction Payload) : Loopback Payload → Prop
  | server (action : ServingAction Payload) (server : Server Payload) (own : taken = .server action)
      (plain : ∀ payload requestId, action ≠ .generate payload requestId)
      (stepped : loopback.server.step rules action = some server) :
      LoopbackMoves rules loopback taken { loopback with server := server }
  | gate (phase : ShimPhase) (files : List Id) (grows : ∀ id ∈ loopback.files, id ∈ files)
      (keeps : taken.ofRequest = true → phase = loopback.phase) :
      LoopbackMoves rules loopback taken { loopback with phase := phase, files := files }
  | reserve (requestId : Id) (payload : Payload) (running : loopback.phase = .running)
      (idle : loopback.active = 0) (unclaimed : requestId ∉ loopback.files) :
      LoopbackMoves rules loopback taken { loopback with
        files := loopback.files ++ [requestId]
        requests := loopback.requests ++ [requestId]
        active := loopback.active + 1
        handlers := loopback.handlers ++ [⟨requestId, payload, .reserved⟩] }
  | enter (index : ℕ) (handler : Handler Payload) (server : Server Payload)
      (there : loopback.handlers[index]? = some handler) (here : handler.place = .reserved)
      (entered : loopback.server.generate rules handler.payload handler.requestId = some server) :
      LoopbackMoves rules loopback taken { loopback with
        server := server
        handlers := loopback.move index handler (.generating loopback.server.calls.length) }
  | walk (index : ℕ) (handler : Handler Payload) (place : HandlerPlace) (active : ℕ)
      (there : loopback.handlers[index]? = some handler) (held : handler.weight = 1)
      (keeps : place.thread? = handler.place.thread?) (open_ : ∀ thread, place ≠ .generating thread)
      (ended : ∀ thread, handler.place = .generating thread →
        ∃ call, loopback.server.calls[thread]? = some call ∧ call.place.admitted = false)
      (stays : handler.place.final = true → place.final = true)
      (counts : active + handler.weight
        = loopback.active + weight { handler with place := place }) :
      LoopbackMoves rules loopback taken (loopback.walked index handler place active)
  | answer (index : ℕ) (handler : Handler Payload) (stage : String) (thread : Option ℕ)
      (there : loopback.handlers[index]? = some handler) (here : handler.place = .raised thread) :
      LoopbackMoves rules loopback taken (loopback.failed rules index handler stage)

variable {handler : Handler Payload}
variable {index : ℕ}

section Steps

variable {loopback next : Loopback Payload}

theorem handlerStep_cases
    (there : loopback.handlers[index]? = some handler)
    (stepped : loopback.handlerStep rules index handler action = some next)
    (counted : Counted weight loopback.handlers loopback.active) :
    LoopbackMoves rules loopback action next := by
  -- A step that releases nothing.
  have walk : ∀ (place : HandlerPlace), place.thread? = handler.place.thread? →
      (∀ thread, place ≠ .generating thread) → (∀ thread, place ≠ .released thread) →
      handler.place.final = false →
      (∀ thread, handler.place = .generating thread →
        ∃ call, loopback.server.calls[thread]? = some call ∧ call.place.admitted = false) →
      LoopbackMoves rules loopback action { loopback with handlers := loopback.move index handler place } := by
    intro place keeps open_ leaves unfinished ended
    have weighs : handler.weight = 1 := by
      unfold weight
      split
      · rename_i thread here
        rw [here] at unfinished
        cases unfinished
      · rfl
    have weighs' : weight { handler with place := place } = 1 := by
      unfold weight
      split
      · rename_i thread here
        exact absurd here (leaves thread)
      · rfl
    refine .walk index handler place loopback.active there weighs keeps open_ ended
      (fun final => by rw [unfinished] at final; cases final) ?_
    rw [weighs, weighs']
  cases action with simp only [handlerStep] at stepped
  | generate _ =>
    split at stepped
    · rename_i here
      cases stepped
      unfold call
      split
      · rename_i server entered
        exact .enter index handler server there here entered
      · exact walk (.raised none) (by rw [here]; rfl) nofun nofun (by rw [here]; rfl)
          fun thread same => by rw [here] at same; cases same
    · cases stepped
  | collect other fatal =>
    split at stepped
    · rename_i thread here
      -- Whatever its result, the call has ended.
      have ends : ∀ (place : HandlerPlace) {result}, place.thread? = some thread →
          (∀ thread, place ≠ .generating thread) → (∀ thread, place ≠ .released thread) →
          (loopback.server.calls[thread]?).map Call.place = some (.over result) →
          LoopbackMoves rules loopback (.collect other fatal) { loopback with
            handlers := loopback.move index handler place } := by
        intro place result keeps open_ held ended
        obtain ⟨call, at_, finished⟩ := map_eq_some_iff.mp ended
        refine walk place (keeps.trans (by rw [here]; rfl)) open_ held (by rw [here]; rfl)
          fun going same => ?_
        rw [here] at same
        cases same
        exact ⟨call, at_, by rw [finished]; rfl⟩
      split at stepped
      · rename_i ended
        cases stepped
        exact ends (.returned thread) rfl nofun nofun ended
      · rename_i ended
        split_ifs at stepped
        · cases stepped
          exact ends (.answered (some thread)) rfl nofun nofun ended
        · cases stepped
          exact ends (.raised (some thread)) rfl nofun nofun ended
      · cases stepped
    · cases stepped
  | deliver _ sound =>
    split at stepped
    · rename_i thread here
      have going : ∀ thread, handler.place = .generating thread →
          ∃ call, loopback.server.calls[thread]? = some call ∧ call.place.admitted = false :=
        fun other same => by rw [here] at same; cases same
      split_ifs at stepped
      · cases stepped
        exact walk (.answered (some thread)) (by rw [here]; rfl) nofun nofun (by rw [here]; rfl) going
      · cases stepped
        exact walk (.raised (some thread)) (by rw [here]; rfl) nofun nofun (by rw [here]; rfl) going
    · cases stepped
  | fail _ stage =>
    split at stepped
    · rename_i thread here
      cases stepped
      exact .answer index handler stage thread there here
    · cases stepped
  | release _ =>
    split at stepped
    · rename_i thread here
      cases stepped
      have weighs : handler.weight = 1 := by
        unfold weight
        rw [here]
      refine .walk index handler (.released thread) (loopback.active - 1) there weighs
        (by rw [here]; rfl) nofun
        (fun other same => by rw [here] at same; cases same) (fun _ => rfl) ?_
      have inside := counted.le there
      rw [weighs] at inside ⊢
      change loopback.active - 1 + 1 = loopback.active + 0
      omega
    · cases stepped
  | _ => cases stepped

/-- Every step is a move of the shim, of a handler or of the controller. -/
theorem loopback_step_cases
    (counted : Counted weight loopback.handlers loopback.active)
    (stepped : loopback.step rules action = some next) : LoopbackMoves rules loopback action next := by
  have handler : ∀ {index : ℕ}, ((loopback.handlers[index]?).bind fun handler =>
      loopback.handlerStep rules index handler action) = some next →
      LoopbackMoves rules loopback action next := by
    intro index moved
    obtain ⟨handler, there, moved⟩ := bind_eq_some_iff.mp moved
    exact handlerStep_cases there moved counted
  cases action with
  | server action =>
    simp only [step] at stepped
    split at stepped
    · cases stepped
    · rename_i action' other same
      cases same
      obtain ⟨server, moved, rfl⟩ := map_eq_some_iff.mp stepped
      exact .server action server rfl
        (fun payload requestId equal => other payload requestId (by rw [equal])) moved
    all_goals contradiction
  | generate _ | collect _ _ | deliver _ _ | fail _ _ | release _ => exact handler stepped
  | reserve requestId payload =>
    simp only [step, admits, Bool.and_eq_true, decide_eq_true_eq] at stepped
    split_ifs at stepped with admitted
    cases stepped
    exact .reserve requestId payload admitted.1.1 admitted.1.2 admitted.2
  | spoil requestId =>
    simp only [step] at stepped
    split_ifs at stepped
    cases stepped
    exact .gate loopback.phase _ (fun _ => mem_append_left _) fun _ => rfl
  | start | phase _ | close =>
    simp only [step] at stepped
    split_ifs at stepped
    cases stepped
    exact .gate _ loopback.files (fun _ => id) nofun
  | quiesce =>
    cases stepped
    exact .gate .quiescing loopback.files (fun _ => id) nofun

end Steps

/-! ### Handlers and their calls -/

/-- The handlers have requests of their own, whose files are there; a call of `generate` is that of a
handler, and has ended when its handler has gone on. -/
structure Wired (loopback : Loopback Payload) : Prop where
  counts : Counted weight loopback.handlers loopback.active
  named : loopback.requests = loopback.handlers.map (·.requestId)
  apart : Once (fun _ => True) (fun handler => [handler.requestId]) loopback.handlers loopback.files []
  owned : Each (fun thread call => call.generates = true →
    ∃ (index : ℕ) (handler : Handler Payload), loopback.handlers[index]? = some handler ∧
      handler.requestId = call.requestId ∧ handler.place.thread? = some thread) loopback.server.calls
  runs : Each (fun _ handler => ∀ thread, handler.place.thread? = some thread →
    ∃ call, loopback.server.calls[thread]? = some call ∧ call.generates = true ∧
      call.requestId = handler.requestId ∧
      (handler.place ≠ .generating thread → call.place.admitted = false)) loopback.handlers

section Wired

variable {rules : ServingRules Payload} {loopback next : Loopback Payload}

theorem Wired.fresh : Wired (fresh Payload) where
  counts := Counted.nil
  named := rfl
  apart := Once.nil
  owned := Each.nil
  runs := Each.nil

theorem moved_names {place : HandlerPlace} (there : loopback.handlers[index]? = some handler) :
    (loopback.move index handler place).map (·.requestId) = loopback.handlers.map (·.requestId) := by
  exact Cells.map_set _ there rfl

section

variable (wired : Wired loopback)
include wired

theorem Wired.same {other : ℕ} {found : Handler Payload}
    (there : loopback.handlers[index]? = some handler) (there' : loopback.handlers[other]? = some found)
    (same : handler.requestId = found.requestId) : index = other := by
  refine wired.apart.apart index other handler found there there' trivial trivial handler.requestId
    (mem_singleton.mpr rfl) ?_
  rw [same]
  exact mem_singleton.mpr rfl

/-- Two calls of `generate` have two requests. -/
theorem Wired.sole {thread other : ℕ} {call found : Call Payload}
    (there : loopback.server.calls[thread]? = some call)
    (there' : loopback.server.calls[other]? = some found) (generates : call.generates = true)
    (generates' : found.generates = true) (same : call.requestId = found.requestId) :
    thread = other := by
  obtain ⟨index, handler, at_, own, place⟩ := wired.owned thread call there generates
  obtain ⟨index', handler', at', own', place'⟩ := wired.owned other found there' generates'
  have equal := wired.same at_ at' (own.trans (same.trans own'.symm))
  subst equal
  rw [at_] at at'
  cases at'
  rw [place] at place'
  exact some.inj place'

theorem Wired.walk (place : HandlerPlace) {active : ℕ}
    (there : loopback.handlers[index]? = some handler) (keeps : place.thread? = handler.place.thread?)
    (ended : ∀ thread, handler.place = .generating thread → ∃ call, loopback.server.calls[thread]? =
      some call ∧ call.place.admitted = false)
    (counts : active + handler.weight = loopback.active + weight { handler with place := place
      }) :
    Wired (loopback.walked index handler place active) := by
  refine ⟨wired.counts.move there counts, wired.named.trans (moved_names there).symm,
    wired.apart.move there rfl fun _ => trivial, ?_, ?_⟩
  · refine wired.owned.imp fun thread call _ owned generates => ?_
    obtain ⟨other, found, at_, own, here⟩ := owned generates
    by_cases same : other = index
    · subst same
      rw [there] at at_
      cases at_
      exact ⟨other, _, move_self there, own, keeps.trans here⟩
    · exact ⟨other, found, (move_other same).trans at_, own, here⟩
  · refine wired.runs.move fun thread here => ?_
    obtain ⟨call, at_, generates, own, finished⟩ := wired.runs index handler there thread (keeps ▸ here)
    refine ⟨call, at_, generates, own, fun _ => ?_⟩
    by_cases going : handler.place = .generating thread
    · obtain ⟨call', at', ended_⟩ := ended thread going
      rw [at_] at at'
      cases at'
      exact ended_
    · exact finished going

theorem Wired.step {action : LoopbackAction Payload} (stepped : loopback.step rules action = some next) :
    Wired next := by
  cases loopback_step_cases wired.counts stepped with
  | server action server _ plain moved =>
    refine ⟨wired.counts, wired.named, wired.apart, fun thread call there generates => ?_,
      wired.runs.imp fun index handler _ runs thread here => ?_⟩
    · obtain ⟨before, at_, entry, request⟩ := calls_come moved plain there generates
      obtain ⟨index, handler, at', own, here⟩ := wired.owned thread before at_
        (by unfold Call.generates at generates ⊢; rw [entry]; exact generates)
      exact ⟨index, handler, at', own.trans request, here⟩
    · obtain ⟨call, at_, generates, own, finished⟩ := runs thread here
      by_cases ended : call.place.admitted = false
      · exact ⟨call, over_stays moved at_ ended, generates, own, fun _ => ended⟩
      · obtain ⟨call', at', entry, request⟩ := calls_stay moved at_
        exact ⟨call', at', by unfold Call.generates at generates ⊢; rw [entry]; exact generates,
          request.trans own, fun gone => absurd (finished gone) ended⟩
  | gate phase files grows _ =>
    exact ⟨wired.counts, wired.named, wired.apart.see grows, wired.owned, wired.runs⟩
  | reserve requestId payload _ _ unclaimed =>
    refine ⟨wired.counts.spawn, ?_, wired.apart.spawn (nodup_singleton _) fun key mem => ?_,
      wired.owned.imp fun thread call _ owned generates => ?_,
      wired.runs.spawn nofun⟩
    · rw [wired.named, map_append]
      rfl
    · exact mem_singleton.mp mem ▸ unclaimed
    · obtain ⟨index, handler, at_, own, here⟩ := owned generates
      exact ⟨index, handler, spawn_old at_, own, here⟩
  | enter index handler server there here entered =>
    obtain ⟨policy, prompt, place, grown⟩ := generate_calls entered
    refine ⟨wired.counts.move there ?_, wired.named.trans (moved_names there).symm,
      wired.apart.move there rfl fun _ => trivial, ?_, ?_⟩
    · unfold weight
      rw [here]
    · rw [grown]
      refine Each.spawn (wired.owned.imp fun thread call _ owned generates => ?_) fun _ =>
        ⟨index, _, move_self there, rfl, rfl⟩
      obtain ⟨other, found, at_, own, at'⟩ := owned generates
      refine ⟨other, found, (move_other fun same => ?_).trans at_, own, at'⟩
      subst same
      rw [there] at at_
      cases at_
      rw [here] at at'
      cases at'
    · refine (wired.runs.imp fun other found _ runs thread at_ => ?_).move fun thread at_ => ?_
      · obtain ⟨call, at', rest⟩ := runs thread at_
        exact ⟨call, by rw [grown]; exact spawn_old at', rest⟩
      · cases at_
        exact ⟨_, by rw [grown]; exact getElem?_concat_length, rfl, rfl, absurd rfl⟩
  | walk index handler place active there _ keeps _ ended _ counts =>
    exact wired.walk place there keeps ended counts
  | answer index handler stage thread there here =>
    have counts : loopback.active + handler.weight = loopback.active
        + weight { handler with place := .answered handler.place.thread? } := by
      unfold weight
      rw [here]
    have walked := wired.walk (.answered handler.place.thread?) there rfl
      (fun other same => by rw [here] at same; cases same) counts
    exact ⟨walked.counts, walked.named, walked.apart, walked.owned, walked.runs⟩

end

end Wired

end TinyDSV41.Serving
