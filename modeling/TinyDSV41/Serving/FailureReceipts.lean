/-
**Failure receipts, and what they vouch for.**

The vLLM controller keeps for every request whether its sampling was started and whether it has
returned. The handler of a failed request puts this into a receipt, behind the end of its call.

* `Kept` — what is kept of a request agrees with the history of its call.
* `Vouched`, `Attested` — what a receipt says of its call when it is made, and from then on.
* `Accountable`, `Accountable.step` — the handlers, what is kept of their requests, and their receipts.
-/

import TinyDSV41.Serving.LoopbackAccounting

namespace TinyDSV41.Serving

open List Lib Lib.Threads Server ServingEvent Option AList
open Relay (Id)

variable {Payload : Type}

/-! ### The history of a call -/

def IssuedBy (thread : ℕ) (log : List ServingEvent) : Prop := ∃ id, .issued thread id ∈ log

/-- The model has returned its final output to a call. -/
def ReturnedTo (thread : ℕ) (log : List ServingEvent) : Prop := ∃ id, .returned thread id ∈ log

variable {action : ServingAction Payload}

section History

variable {rules : ServingRules Payload} {server next : Server Payload} {thread : ℕ}
  {call : Call Payload} {first second : List ServingEvent}

theorem issuedBy_append : IssuedBy thread (first ++ second) ↔
    IssuedBy thread first ∨ IssuedBy thread second := by
  constructor
  · rintro ⟨id, mem⟩
    exact (mem_append.mp mem).imp (fun here => ⟨id, here⟩) fun here => ⟨id, here⟩
  · rintro (⟨id, mem⟩ | ⟨id, mem⟩)
    · exact ⟨id, mem_append_left _ mem⟩
    · exact ⟨id, mem_append_right _ mem⟩

theorem ReturnedTo.mono (returned : ReturnedTo thread first) : ReturnedTo thread (first ++ second) := by
  obtain ⟨id, mem⟩ := returned
  exact ⟨id, mem_append_left _ mem⟩

/-- What a step adds to the history: only a call that is about to sample issues a request. -/
theorem step_log (stepped : server.step rules action = some next) :
    ∃ events, next.log = server.log ++ events ∧ ∀ thread, IssuedBy thread events →
      ∃ call, server.calls[thread]? = some call ∧ call.place = .marked := by
  have quiet : ∀ {events : List ServingEvent}, (∀ event ∈ events, event.issued? = none) →
      ∀ thread, IssuedBy thread events →
        ∃ call, server.calls[thread]? = some call ∧ call.place = .marked := by
    rintro events none_ thread ⟨id, mem⟩
    cases none_ _ mem
  have single : ∀ {event : ServingEvent}, event.issued? = none →
      ∀ other ∈ [event], issued? other = none := by
    intro event none_ other mem
    rw [mem_singleton.mp mem]
    exact none_
  have nothing : ∀ event ∈ ([] : List ServingEvent), event.issued? = none :=
    fun _ wrong => by cases wrong
  rcases server_step_cases stepped with admits |
    ⟨thread, call, place, lock, active, recorded, sampling, events, there, -, moves, rfl⟩ | controls
  · cases admits with
    | generate _ _ _ _ _ _ _ _ | sampleTokens _ _ _ _ _ _ _ _ _ => exact ⟨_, rfl, quiet (single rfl)⟩
    | reject _ _ _ _ _ _ _ => exact ⟨[], (append_nil _).symm, quiet nothing⟩
  · refine ⟨events, rfl, ?_⟩
    cases moves with
    | send here =>
      rintro other ⟨id, mem⟩
      cases mem_singleton.mp mem
      exact ⟨call, there, here⟩
    | lose _ _ | answer _ _ _ | refuse _ => exact quiet (single rfl)
    | _ => exact quiet nothing
  · cases controls with
    | reject _ _ | loadFails _ _ _ _ _ | cancels _ => exact ⟨_, rfl, quiet (single rfl)⟩
    | _ => exact ⟨[], (append_nil _).symm, quiet nothing⟩

end History

/-! ### What is kept of a request -/

/-- What is kept of a request agrees with the history of its call. -/
structure Told (thread : ℕ) (place : CallPlace) (outcome : SamplerOutcome) (log : List ServingEvent) :
    Prop where
  unsampled : outcome = .notAdmitted → place ≠ .marked ∧ ¬ IssuedBy thread log
  returned : outcome = .completed → ReturnedTo thread log
  sampled : ∀ sample, place = .sampled sample → ReturnedTo thread log

/-- Two calls of `generate` have two requests. -/
def Sole (server : Server Payload) : Prop :=
  ∀ (thread other : ℕ) (call call' : Call Payload), server.calls[thread]? = some call →
    server.calls[other]? = some call' → call.generates = true → call'.generates = true →
    call.requestId = call'.requestId → thread = other

/-- Every call of `generate` has its request kept, in agreement with its history. -/
structure Kept (server : Server Payload) : Prop where
  started : ∀ thread, IssuedBy thread server.log → thread < server.calls.length
  tells : Each (fun thread call => call.generates = true →
    ∃ binding, server.requestSampling.lookup call.requestId = some binding ∧
      Told thread call.place binding.outcome server.log) server.calls

section Kept

variable {rules : ServingRules Payload} {server next : Server Payload} {thread : ℕ}
  {call : Call Payload} {place place' : CallPlace} {outcome : SamplerOutcome}
  {log events : List ServingEvent}

theorem Told.extend (told : Told thread place outcome log) (silent : ¬ IssuedBy thread events)
    (moves : place' ≠ .marked ∨ place' = place)
    (sampled : ∀ sample, place' = .sampled sample → ReturnedTo thread (log ++ events)) :
    Told thread place' outcome (log ++ events) := by
  refine ⟨fun same => ?_, fun same => (told.returned same).mono, sampled⟩
  obtain ⟨unmarked, unissued⟩ := told.unsampled same
  refine ⟨moves.elim id fun same => same ▸ unmarked, fun issued => ?_⟩
  exact (issuedBy_append.mp issued).elim unissued silent

theorem outcome_other {id : Id} (different : id ≠ call.requestId) :
    (server.outcome rules call outcome).lookup id = server.requestSampling.lookup id := by
  unfold Server.outcome
  split
  · exact lookup_insert_ne different
  · rfl

theorem outcome_self {binding : Binding} (remote : rules.kind = .vllm) (generates : call.generates = true)
    (known : server.requestSampling.lookup call.requestId = some binding) :
    (server.outcome rules call outcome).lookup call.requestId
      = some { binding with outcome := outcome } := by
  unfold Server.outcome
  unfold Call.generates at generates
  split at generates
  · rename_i payload entry
    rw [remote, entry, known]
    exact lookup_insert _
  · cases generates

theorem outcome_plain (tokens : call.generates = false) :
    server.outcome rules call outcome = server.requestSampling := by
  unfold Server.outcome
  unfold Call.generates at tokens
  split at tokens
  · cases tokens
  · rename_i entry
    rw [entry]
    split
    · rename_i wrong _
      cases wrong
    · rfl

theorem Kept.fresh : Kept (fresh Payload) where
  started := fun _ ⟨_, impossible⟩ => by cases impossible
  tells := Each.nil

section

variable (kept : Kept server)
include kept

/-- A call of `generate` starts with what is kept of its request. -/
theorem Kept.spawn (remote : rules.kind = .vllm) (payload : Payload) {requestId : Id} (policy : Policy)
    (prompt : List ℕ) (unmarked : place ≠ .marked) (unsampled : ∀ sample, place ≠ .sampled sample)
    (silent : ∀ thread, ¬ IssuedBy thread events)
    (sole : ∀ (other : ℕ) (call : Call Payload), server.calls[other]? = some call → call.generates =
      true → call.requestId ≠ requestId) :
    Each (fun thread call => call.generates = true →
      ∃ binding, (server.bind rules payload requestId policy).lookup call.requestId = some binding ∧
        Told thread call.place binding.outcome (server.log ++ events))
      (server.calls ++ [⟨.generate payload, requestId, policy, prompt, place⟩]) := by
  unfold Server.bind
  rw [remote]
  refine (kept.tells.imp fun other call there tells generates => ?_).spawn fun _ => ?_
  · obtain ⟨binding, known, told⟩ := tells generates
    exact ⟨binding, (lookup_insert_ne (sole other call there generates)).trans known,
      told.extend (silent other) (Or.inr rfl) fun sample here => (told.sampled sample here).mono⟩
  · refine ⟨_, lookup_insert _, fun _ => ⟨unmarked, fun issued => ?_⟩,
      fun wrong => (by cases wrong), fun sample here => absurd here (unsampled sample)⟩
    rcases issuedBy_append.mp issued with before | new
    · exact absurd (kept.started _ before) (lt_irrefl _)
    · exact silent _ new

theorem Kept.admits (sole : Sole next) (remote : rules.kind = .vllm) (admits : Admits rules server next) :
    Kept next := by
  have silent : ∀ {id : Id} {index thread : ℕ}, ¬ IssuedBy thread [admitted index id] := by
    rintro id index thread ⟨other, mem⟩
    cases mem_singleton.mp mem
  have started : ∀ {events : List ServingEvent}, (∀ thread, ¬ IssuedBy thread events) →
      ∀ thread, IssuedBy thread (server.log ++ events) → thread < server.calls.length + 1 := by
    intro events silent thread issued
    have before := kept.started thread ((issuedBy_append.mp issued).resolve_right (silent thread))
    omega
  -- A request of `generate` is new.
  have alone : ∀ {payload : Payload} {requestId : Id} {policy : Policy} {prompt : List ℕ}
      {place : CallPlace},
      next.calls = server.calls ++ [⟨.generate payload, requestId, policy, prompt, place⟩] →
      ∀ (other : ℕ) (call : Call Payload), server.calls[other]? = some call →
        call.generates = true → call.requestId ≠ requestId := by
    intro payload requestId policy prompt place grown other call there generates same
    obtain ⟨inside, -⟩ := List.getElem?_eq_some_iff.mp there
    have index := sole other server.calls.length call _ (by rw [grown]; exact spawn_old there)
      (by rw [grown]; exact getElem?_concat_length) generates rfl same
    omega
  cases admits with
  | generate payload requestId policy artifact prompt _ _ _ =>
    refine ⟨?_, kept.spawn remote payload policy prompt (fun wrong => by cases wrong)
      (fun _ wrong => by cases wrong) (fun _ => silent) (alone rfl)⟩
    intro thread issued
    rw [enter, length_append]
    exact started (fun _ => silent) thread issued
  | sampleTokens maxTokens temperature requestId policy artifact prompt _ _ _ =>
    refine ⟨fun thread issued => ?_, (kept.tells.imp fun other call there tells generates => ?_).spawn
      fun wrong => (by cases wrong)⟩
    · rw [enter, length_append]
      exact started (fun _ => silent) thread issued
    · obtain ⟨binding, known, told⟩ := tells generates
      exact ⟨binding, known, told.extend silent (Or.inr rfl) fun sample here =>
        (told.sampled sample here).mono⟩
  | reject payload requestId policy artifact _ _ _ =>
    have nothing : ∀ thread, ¬ IssuedBy thread ([] : List ServingEvent) := by
      rintro thread ⟨id, wrong⟩
      cases wrong
    have grown : (server.reject payload requestId policy
        (server.bind rules payload requestId policy)).calls
        = server.calls ++ [⟨.generate payload, requestId, policy, [], .over none⟩] := rfl
    have unmarked : CallPlace.over none ≠ .marked := fun wrong => by cases wrong
    have tells := kept.spawn remote payload policy [] unmarked
      (fun _ wrong => by cases wrong) nothing (alone grown)
    rw [append_nil] at tells
    refine ⟨fun thread issued => ?_, tells⟩
    rw [reject, length_append]
    have before := kept.started thread issued
    omega

variable {sampling : AList fun _ : Id => Binding}

theorem Kept.move (sole : Sole server) (there : server.calls[thread]? = some call) {lock : Option ℕ}
    {active : ℕ} {recorded : Option Bool}
    (others : call.generates = true → ∀ id, id ≠ call.requestId → sampling.lookup id =
      server.requestSampling.lookup id)
    (plain : call.generates = false → sampling = server.requestSampling)
    (silent : ∀ other, other ≠ thread → ¬ IssuedBy other events)
    (tells : ∀ binding, call.generates = true → server.requestSampling.lookup call.requestId = some
      binding → Told thread call.place binding.outcome server.log → ∃ binding', sampling.lookup
      call.requestId = some binding' ∧ Told thread place binding'.outcome (server.log ++ events)) :
    Kept (server.moved thread call place lock active recorded sampling events) := by
  obtain ⟨inside, -⟩ := List.getElem?_eq_some_iff.mp there
  refine ⟨fun other issued => ?_, fun other found at_ generates => ?_⟩
  · change other < (server.calls.set thread _).length
    rw [length_set]
    by_cases same : other = thread
    · exact same ▸ inside
    · exact kept.started other ((issuedBy_append.mp issued).resolve_right (silent other same))
  · rcases Cells.getElem?_set_cases at_ with ⟨rfl, rfl⟩ | ⟨different, before⟩
    · obtain ⟨binding, known, told⟩ := kept.tells other call there generates
      exact tells binding generates known told
    · obtain ⟨binding, known, told⟩ := kept.tells other found before generates
      refine ⟨binding, ?_, told.extend (silent other different) (Or.inr rfl) fun sample here =>
        (told.sampled sample here).mono⟩
      change sampling.lookup found.requestId = some binding
      rw [← known]
      cases own : call.generates
      · rw [plain own]
      · refine others own _ fun same => ?_
        exact different (sole other thread found call before there generates own same)

theorem Kept.moved (sole : Sole server) (remote : rules.kind = .vllm)
    (there : server.calls[thread]? = some call) {lock : Option ℕ} {active : ℕ} {recorded : Option Bool}
    (moves : CallMoves rules server thread call place lock active recorded sampling events) :
    Kept (server.moved thread call place lock active recorded sampling events) := by
  have nothing : ∀ thread, ¬ IssuedBy thread ([] : List ServingEvent) :=
    fun _ ⟨_, wrong⟩ => by cases wrong
  -- A move that leaves what is kept, and does not issue.
  have plain : ∀ {place lock active recorded} {events : List ServingEvent},
      (∀ thread, ¬ IssuedBy thread events) → place ≠ .marked →
      (∀ sample, place = .sampled sample → ReturnedTo thread (server.log ++ events)) →
      Kept (server.moved thread call place lock active recorded server.requestSampling events) := by
    intro place lock active recorded events silent unmarked sampled
    exact kept.move sole there (fun _ _ _ => rfl) (fun _ => rfl) (fun other _ => silent other)
      fun binding _ known told => ⟨binding, known, told.extend (silent thread) (Or.inl unmarked) sampled⟩
  have single : ∀ {event : ServingEvent}, event.issued? = none → ∀ thread, ¬ IssuedBy thread [event] := by
    rintro event none_ thread ⟨id, mem⟩
    rw [← mem_singleton.mp mem] at none_
    cases none_
  cases moves with
  | acquire _ _ | breaks _ | note _ | finish _ _ | unlock _ _ | record _ | leave _ _ =>
    exact plain nothing (fun wrong => by cases wrong) fun _ wrong => by cases wrong
  | raise _ _ ends | look _ _ ends =>
    rcases ends with rfl | rfl <;>
      exact plain nothing (fun wrong => by cases wrong) fun _ wrong => by cases wrong
  | lose _ _ | refuse _ =>
    exact plain (single rfl) (fun wrong => by cases wrong) fun _ wrong => by cases wrong
  | answer sample _ _ =>
    exact plain (single rfl) (fun wrong => by cases wrong) fun _ _ =>
      ⟨call.requestId, mem_append_right _ (mem_singleton.mpr rfl)⟩
  | mark here =>
    refine kept.move sole there (fun _ id different => outcome_other different) outcome_plain
      (fun other _ => nothing other) fun binding generates known told => ?_
    exact ⟨_, outcome_self remote generates known, fun wrong => (by cases wrong),
      fun wrong => (by cases wrong), fun _ wrong => by cases wrong⟩
  | complete sample here =>
    refine kept.move sole there (fun _ id different => outcome_other different) outcome_plain
      (fun other _ => nothing other) fun binding generates known told => ?_
    exact ⟨_, outcome_self remote generates known, fun wrong => (by cases wrong),
      fun _ => (told.sampled sample here).mono, fun _ wrong => by cases wrong⟩
  | send here =>
    refine kept.move sole there (fun _ _ _ => rfl) (fun _ => rfl) ?_
      fun binding generates known told => ⟨binding, known, fun same => ?_,
        fun same => (told.returned same).mono, fun _ wrong => by cases wrong⟩
    · rintro other different ⟨id, mem⟩
      cases mem_singleton.mp mem
      exact different rfl
    · exact absurd here (told.unsampled same).1

theorem Kept.step (sole : Sole server) (sole' : Sole next) (remote : rules.kind = .vllm)
    (stepped : server.step rules action = some next) : Kept next := by
  rcases server_step_cases stepped with admits |
    ⟨thread, call, place, lock, active, recorded, sampling, events, there, -, moves, rfl⟩ | controls
  · exact kept.admits sole' remote admits
  · exact kept.moved sole remote there moves
  · have failed : ∀ {server' : Server Payload}, server'.calls = server.calls →
        server'.requestSampling = server.requestSampling →
        server'.log = server.log ++ [.updateFailed] → Kept server' := by
      intro server' calls sampling log
      have silent : ∀ thread, ¬ IssuedBy thread [updateFailed] := by
        rintro thread ⟨id, mem⟩
        cases mem_singleton.mp mem
      refine ⟨fun thread issued => ?_, ?_⟩
      · rw [log] at issued
        rw [calls]
        exact kept.started thread ((issuedBy_append.mp issued).resolve_right (silent thread))
      · rw [calls, sampling, log]
        refine kept.tells.imp fun thread call there tells generates => ?_
        obtain ⟨binding, known, told⟩ := tells generates
        exact ⟨binding, known, told.extend (silent thread) (Or.inr rfl) fun sample here =>
          (told.sampled sample here).mono⟩
    cases controls with
    | reject _ _ | loadFails _ _ _ _ _ | cancels _ => exact failed rfl rfl rfl
    | _ => exact ⟨kept.started, kept.tells⟩

end

end Kept

/-! ### What a receipt vouches for -/

/-- What an outcome says of a call, from the time when the history had a length on. -/
structure Vouched (outcome : SamplerOutcome) (thread : ℕ) (log : List ServingEvent) (length : ℕ) :
    Prop where
  unsampled : outcome = .notAdmitted → ¬ IssuedBy thread log
  returned : outcome = .completed →
    ReturnedTo thread (log.take length) ∧ ¬ IssuedBy thread (log.drop length)

/-- Every receipt was made by a handler that has answered, and vouches for its call. -/
def Attested (loopback : Loopback Payload) : Prop :=
  ∀ (receipt : FailureReceipt) (length : ℕ), (receipt, length) ∈ loopback.made →
    length ≤ loopback.server.log.length ∧
    ∃ (index : ℕ) (handler : Handler Payload), loopback.handlers[index]? = some handler ∧
      handler.place.final = true ∧ receipt.requestId = handler.requestId.text ∧
      ∀ thread, handler.place.thread? = some thread →
        Vouched receipt.samplerOutcome thread loopback.server.log length

section Attested

variable {rules : ServingRules Payload} {loopback next : Loopback Payload}

theorem Vouched.grow {outcome : SamplerOutcome} {thread length : ℕ} {log events : List ServingEvent}
    (vouched : Vouched outcome thread log length) (bounded : length ≤ log.length)
    (silent : ¬ IssuedBy thread events) : Vouched outcome thread (log ++ events) length := by
  refine ⟨fun same issued => ?_, fun same => ?_⟩
  · exact (issuedBy_append.mp issued).elim (vouched.unsampled same) silent
  · obtain ⟨returned, later⟩ := vouched.returned same
    rw [take_append_of_le_length bounded, drop_append_of_le_length bounded]
    exact ⟨returned, fun issued => (issuedBy_append.mp issued).elim later silent⟩

theorem Told.vouched {thread : ℕ} {place : CallPlace} {outcome : SamplerOutcome}
    {log : List ServingEvent} (told : Told thread place outcome log) :
    Vouched outcome thread log log.length := by
  refine ⟨fun same => (told.unsampled same).2, fun same => ?_⟩
  rw [take_length, drop_length]
  exact ⟨told.returned same, fun ⟨_, wrong⟩ => by cases wrong⟩

theorem receipt_of {server : Server Payload} {payload : Payload} {requestId : Id} {stage : String}
    {receipt : FailureReceipt}
    (made : server.generationFailureReceipt rules payload requestId stage = some receipt) :
    rules.kind = .vllm ∧ receipt.requestId = requestId.text ∧
      ∃ binding, server.requestSampling.lookup requestId = some binding ∧
        receipt.samplerOutcome = binding.outcome := by
  unfold generationFailureReceipt at made
  split at made
  · cases made
  · rename_i remote
    obtain ⟨found, -⟩ := filter_eq_some_iff.mp made
    obtain ⟨binding, known, rfl⟩ := map_eq_some_iff.mp found
    exact ⟨remote, rfl, binding, known, rfl⟩

theorem Attested.walk (attested : Attested loopback) {index : ℕ} {handler : Handler Payload}
    (place : HandlerPlace) (there : loopback.handlers[index]? = some handler)
    (keeps : place.thread? = handler.place.thread?)
    (stays : handler.place.final = true → place.final = true) {receipt : FailureReceipt} {length : ℕ}
    (mem : (receipt, length) ∈ loopback.made) :
    length ≤ loopback.server.log.length ∧
    ∃ (other : ℕ) (found : Handler Payload), (loopback.move index handler place)[other]? = some found ∧
      found.place.final = true ∧ receipt.requestId = found.requestId.text ∧
      ∀ thread, found.place.thread? = some thread →
        Vouched receipt.samplerOutcome thread loopback.server.log length := by
  obtain ⟨bounded, other, found, at_, final, own, vouches⟩ := attested receipt length mem
  refine ⟨bounded, other, ?_⟩
  by_cases same : other = index
  · subst same
    rw [there] at at_
    cases at_
    exact ⟨_, move_self there, stays final, own, fun thread here => vouches thread (keeps ▸ here)⟩
  · exact ⟨found, (move_other same).trans at_, final, own, vouches⟩

theorem Attested.serve (attested : Attested loopback) (wired : Wired loopback) {server : Server Payload}
    (stepped : loopback.server.step rules action = some server) :
    Attested { loopback with server := server } := by
  intro receipt length mem
  obtain ⟨bounded, index, handler, at_, final, own, vouches⟩ := attested receipt length mem
  obtain ⟨events, grown, issues⟩ := step_log stepped
  rw [grown, length_append]
  refine ⟨by omega, index, handler, at_, final, own, fun thread here => ?_⟩
  refine (vouches thread here).grow bounded fun issued => ?_
  obtain ⟨call, there, marked⟩ := issues thread issued
  obtain ⟨call', there', -, -, finished⟩ := wired.runs index handler at_ thread here
  rw [there] at there'
  cases there'
  have ended := finished fun same => by rw [same] at final; cases final
  rw [marked] at ended
  cases ended

theorem Attested.answer (attested : Attested loopback) (wired : Wired loopback)
    (kept : rules.kind = .vllm → Kept loopback.server) {index : ℕ} {handler : Handler Payload}
    {stage : String} (there : loopback.handlers[index]? = some handler) :
    Attested (loopback.failed rules index handler stage) := by
  intro receipt length mem
  rcases mem_append.mp mem with before | new
  · exact attested.walk (.answered handler.place.thread?) there rfl (fun _ => rfl) before
  · obtain ⟨made, found, same⟩ := map_eq_some_iff.mp (mem_toList.mp new)
    cases same
    obtain ⟨remote, request, binding, known, outcome⟩ := receipt_of found
    refine ⟨le_rfl, index, _, move_self there, rfl, request, fun thread at_ => ?_⟩
    obtain ⟨call, running, generates, own, -⟩ := wired.runs index handler there thread at_
    obtain ⟨binding', known', told⟩ := (kept remote).tells thread call running generates
    rw [own, known] at known'
    cases known'
    rw [outcome]
    exact told.vouched

theorem Wired.soleCalls (wired : Wired loopback) : Sole loopback.server :=
  fun _ _ _ _ there there' generates generates' same =>
    wired.sole there there' generates generates' same

/-- The handlers, what is kept of their requests, and their receipts. -/
structure Accountable (rules : ServingRules Payload) (loopback : Loopback Payload) : Prop where
  wired : Wired loopback
  kept : rules.kind = .vllm → Kept loopback.server
  attested : Attested loopback

theorem Accountable.fresh : Accountable rules (Loopback.fresh Payload) where
  wired := Wired.fresh
  kept := fun _ => Kept.fresh
  attested := fun _ _ mem => by cases mem

theorem Accountable.step (accountable : Accountable rules loopback) {action : LoopbackAction Payload}
    (stepped : loopback.step rules action = some next) : Accountable rules next := by
  obtain ⟨wired, kept, attested⟩ := accountable
  have wired' := wired.step stepped
  refine ⟨wired', fun remote => ?_, ?_⟩
  · cases loopback_step_cases wired.counts stepped with
    | server action server _ _ moved =>
      exact (kept remote).step wired.soleCalls wired'.soleCalls remote moved
    | enter index handler server _ _ entered =>
      exact (kept remote).admits wired'.soleCalls remote (generate_admits entered)
    | _ => exact kept remote
  · cases loopback_step_cases wired.counts stepped with
    | server action server _ _ moved => exact attested.serve wired moved
    | gate _ _ _ _ => exact attested
    | reserve requestId payload _ _ _ =>
      intro receipt length mem
      obtain ⟨bounded, index, handler, at_, rest⟩ := attested receipt length mem
      exact ⟨bounded, index, handler, spawn_old at_, rest⟩
    | enter index handler server there here entered =>
      have moved : loopback.server.step rules (.generate handler.payload handler.requestId)
          = some server := entered
      intro receipt length mem
      obtain ⟨bounded, other, found, at_, final, rest⟩ := attested.serve wired moved receipt length mem
      refine ⟨bounded, other, found, (move_other fun same => ?_).trans at_, final, rest⟩
      subst same
      rw [there] at at_
      cases at_
      rw [here] at final
      cases final
    | walk index handler place active there _ keeps _ _ stays _ =>
      exact fun _ _ mem => attested.walk place there keeps stays mem
    | answer index handler stage thread there _ => exact attested.answer wired kept there

end Attested

end TinyDSV41.Serving
