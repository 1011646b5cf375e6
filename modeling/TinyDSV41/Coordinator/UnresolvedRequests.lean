/-
**Unresolved requests keep their reservations.**

* `Unresolved`, `Closed` — what a record says about a request, and what proves a failure closed.
* `requestUncertain_iff` — `request_uncertain` finds the unresolved records at any depth.
* `unresolved_requests` — no step of `run` or of a stream releases an episode whose result holds one.
-/

import TinyDSV41.Coordinator.StreamAccounting

namespace TinyDSV41.Coordinator

open List Lib EpisodeResult

/-! ### Records -/

/-- A record reached from another through mappings. -/
inductive Within (inner : Mapping) : Mapping → Prop
  | here : Within inner inner
  | nested {state middle : Mapping} {key : String} (listed : (key, .mapping middle) ∈ state)
      (within : Within inner middle) : Within inner state

/-- A receipt that proves the request closed: rejected before its dispatch, or completed by the actor
that owns it. -/
def ProvesClosure (receipt : Mapping) : Prop :=
  receipt.get "sampler_drained" = some (.bool true) ∧
    receipt.get "actual_actor_drain_proven" = some (.bool true) ∧
    (receipt.get "sampler_outcome" = some (.text "not_admitted") ∧
        receipt.get "proof_kind" = some (.text "controller_rejected_before_sampler_dispatch") ∨
      receipt.get "sampler_outcome" = some (.text "completed") ∧
        receipt.get "proof_kind" = some (.text "owned_vllm_final_request_output"))

/-- Two fields are equal; an absent one of the record counts as `None`. -/
def SameField (receipt state : Mapping) (field own : String) : Prop :=
  ∃ value, receipt.get field = some value ∧ value.pyEq ((state.get own).getD .null) = true

def Closed (state : Mapping) : Prop :=
  state.get "generation_failure" = some (.text "validated") ∧
    ∃ receipt, state.get "failure_receipt" = some (.mapping receipt) ∧
      SameField receipt state "request_id" "id" ∧
      SameField receipt state "request_payload_sha256" "request_payload_sha256" ∧ ProvesClosure receipt

/-- A field that names an unknown or uncertain outcome. -/
def NamesUnknown (state : Mapping) (key : String) : Prop :=
  ∃ value, state.get key = some value ∧
    (mentions value.str "unknown" = true ∨ mentions value.str "uncertain" = true)

def Unresolved (state : Mapping) : Prop :=
  state.get "uncertain" = some (.bool true) ∨ state.get "spool_terminal" = some (.bool false) ∨
    NamesUnknown state "state" ∨ NamesUnknown state "delivery_state" ∨
    state.get "state" = some (.text "terminal_failure_received") ∧ ¬ Closed state

section Records

theorem pyEq_text_iff {text : String} {value : Value} : value.pyEq (.text text) = true ↔ value = .text text := by
  cases value <;> simp [Value.pyEq]

variable {text : String} {found : Option Value}

theorem getD_pyEq_iff :
    (found.getD .null).pyEq (.text text) = true ↔ found = some (.text text) := by
  rw [pyEq_text_iff]
  cases found <;> simp

theorem flagged_iff {flag : Bool} :
    unresolvedHere.flagged found flag = true ↔ found = some (.bool flag) := by
  unfold unresolvedHere.flagged
  split
  · simp
  · rename_i other
    refine ⟨nofun, fun same => absurd same (other flag)⟩

theorem isTrue_iff {value : Value} : failureIsTerminal.isTrue value = true ↔ value = .bool true := by
  unfold failureIsTerminal.isTrue
  split
  · simp
  · rename_i other
    exact ⟨nofun, fun same => absurd same other⟩

theorem guarded_iff {rest : Option Bool} :
    (found.bind fun value => if failureIsTerminal.isTrue value = true then rest else some false).getD false = true ↔
      found = some (.bool true) ∧ rest.getD false = true := by
  cases found with
  | none => simp
  | some value =>
    by_cases flag : failureIsTerminal.isTrue value = true
    · simp [isTrue_iff.mp flag, failureIsTerminal.isTrue]
    · have differs : value ≠ .bool true := fun same => flag (isTrue_iff.mpr same)
      simp [flag, differs]

theorem compared_iff :
    (found.bind fun value => some (value.pyEq (.text text))).getD false = true ↔ found = some (.text text) := by
  cases found <;> simp [pyEq_text_iff]

theorem failureIsTerminal_iff : (failureIsTerminal receipt).getD false = true ↔ ProvesClosure receipt := by
  have reads : failureIsTerminal receipt = (receipt.get "sampler_drained").bind fun drained =>
      if failureIsTerminal.isTrue drained = true then
        (receipt.get "actual_actor_drain_proven").bind fun proven =>
          if failureIsTerminal.isTrue proven = true then
            (receipt.get "sampler_outcome").bind fun outcome =>
              if outcome.pyEq (.text "not_admitted") = true then (receipt.get "proof_kind").bind fun proof =>
                some (proof.pyEq (.text "controller_rejected_before_sampler_dispatch"))
              else if outcome.pyEq (.text "completed") = true then (receipt.get "proof_kind").bind fun proof =>
                some (proof.pyEq (.text "owned_vllm_final_request_output"))
              else some false
          else some false
      else some false := by
    simp [failureIsTerminal]
  rw [reads, guarded_iff, guarded_iff]
  refine and_congr_right fun _ => and_congr_right fun _ => ?_
  cases receipt.get "sampler_outcome" with
  | none => simp
  | some outcome =>
    rw [Option.bind_some]
    split_ifs with rejected completed
    · rw [compared_iff]
      simp [pyEq_text_iff.mp rejected]
    · rw [compared_iff]
      simp [pyEq_text_iff.mp completed]
    · rw [pyEq_text_iff] at rejected completed
      simp [rejected, completed]

theorem failureUnproven_iff : failureUnproven state = true ↔ ¬ Closed state := by
  unfold failureUnproven Closed SameField
  split_ifs with validated
  · rw [getD_pyEq_iff] at validated
    split
    · rename_i receipt found
      rw [validated, found]
      cases id : Mapping.get receipt "request_id" <;>
        cases payload : Mapping.get receipt "request_payload_sha256" <;>
        simp [id, payload, ← failureIsTerminal_iff, imp_iff_not_or, or_assoc]
    · rename_i other
      refine ⟨fun _ closed => ?_, fun _ => rfl⟩
      obtain ⟨-, receipt, found, -⟩ := closed
      exact other receipt found
  · rw [getD_pyEq_iff] at validated
    exact ⟨fun _ closed => validated closed.1, fun _ => rfl⟩

theorem unresolvedHere_iff : unresolvedHere state = true ↔ Unresolved state := by
  have names : ∀ key, (mentions ((state.get key).getD (.text "")).str "unknown" ||
      mentions ((state.get key).getD (.text "")).str "uncertain") = true ↔ NamesUnknown state key := by
    intro key
    unfold NamesUnknown
    cases state.get key with
    | none => decide
    | some value => simp
  unfold unresolvedHere Unresolved
  simp only [any_cons, any_nil, Bool.or_eq_true, Bool.and_eq_true, flagged_iff, getD_pyEq_iff, failureUnproven_iff,
    ← names, Bool.false_eq_true, or_false]
  tauto

mutual
/-- The search into a value finds what it reaches. -/
theorem Value.unresolved_iff : ∀ value : Value, value.unresolved = true ↔
    ∃ entries inner, value = .mapping entries ∧ Within inner entries ∧ Unresolved inner
  | .mapping entries => by
    rw [Value.unresolved, Bool.or_eq_true, unresolvedHere_iff, anyUnresolved_iff entries]
    constructor
    · rintro (own | ⟨key, middle, inner, listed, within, unresolved⟩)
      · exact ⟨entries, entries, rfl, .here, own⟩
      · exact ⟨entries, inner, rfl, .nested listed within, unresolved⟩
    · rintro ⟨other, inner, same, within, unresolved⟩
      cases same
      cases within with
      | here => exact Or.inl unresolved
      | nested listed within => exact Or.inr ⟨_, _, inner, listed, within, unresolved⟩
  | .null | .bool _ | .number _ | .text _ | .list _ => by simp [Value.unresolved]
theorem anyUnresolved_iff : ∀ entries : Mapping, anyUnresolved entries = true ↔
    ∃ key middle inner, (key, .mapping middle) ∈ entries ∧ Within inner middle ∧ Unresolved inner
  | [] => by simp [anyUnresolved]
  | (key, value) :: rest => by
    rw [anyUnresolved, Bool.or_eq_true, Value.unresolved_iff value, anyUnresolved_iff rest]
    constructor
    · rintro (⟨middle, inner, rfl, within, unresolved⟩ | ⟨other, middle, inner, listed, found⟩)
      · exact ⟨key, middle, inner, mem_cons_self, within, unresolved⟩
      · exact ⟨other, middle, inner, mem_cons_of_mem _ listed, found⟩
    · rintro ⟨other, middle, inner, listed, within, unresolved⟩
      rcases mem_cons.mp listed with same | later
      · cases same
        exact Or.inl ⟨middle, inner, rfl, within, unresolved⟩
      · exact Or.inr ⟨other, middle, inner, later, within, unresolved⟩
end

/-- **`request_uncertain`** holds of a record exactly if it reaches an unresolved one through mappings. -/
theorem requestUncertain_iff : requestUncertain (some state) = true ↔ ∃ inner, Within inner state ∧ Unresolved inner := by
  have reads : requestUncertain (some state) = (Value.mapping state).unresolved := by
    cases state with
    | nil => decide
    | cons entry rest => rfl
  rw [reads, Value.unresolved_iff]
  simp

end Records

/-- What a hook that fails is taken to have returned. -/
theorem error_uncertain (text : String) :
    requestUncertain (some [("uncertain", .bool true), ("error_type", .text text)]) = true :=
  requestUncertain_iff.mpr ⟨_, .here, Or.inl rfl⟩

/-! ### Releases -/

/-- A result whose record reaches nothing unresolved. -/
def EpisodeResult.Resolved (result : EpisodeResult) : Prop :=
  ¬ ∃ state, result.requestState = some state ∧ ∃ inner, Within inner state ∧ Unresolved inner

theorem EpisodeResult.resolved_of_safe {result : EpisodeResult} (safe : result.safe = true) : result.Resolved := by
  rintro ⟨state, found, reaches⟩
  have uncertain := requestUncertain_iff.mpr reaches
  simp [EpisodeResult.safe, found, uncertain] at safe

section Ledgers

variable {Id : Type}

/-- What was released in between has, each, a result that is resolved. -/
def Releases (before after : List Id) (returned : Id → EpisodeResult → Prop) : Prop :=
  ∃ added, after = before ++ added ∧ ∀ id ∈ added, ∃ result, returned id result ∧ result.Resolved

theorem Releases.still {before after : List Id} {returned : Id → EpisodeResult → Prop} (same : after = before) :
    Releases before after returned := ⟨[], by rw [same, append_nil], nofun⟩

variable (demand : Id → Account → ℚ) (ids : List Id) (ledger : Ledger Id Account ℚ)

theorem released_releaseAll : (ids.foldl (Ledger.release demand) ledger).released = ledger.released ++ ids := by
  induction ids generalizing ledger with
  | nil => simp
  | cons id rest ih =>
    rw [foldl_cons, ih]
    simp [Ledger.release]

@[simp] theorem released_chargeAll : (ids.foldl (Ledger.charge demand) ledger).released = ledger.released := by
  induction ids generalizing ledger with
  | nil => rfl
  | cons id rest ih => exact ih (ledger.charge demand id)

@[simp] theorem released_quarantineAll : (ids.foldl (Ledger.quarantine demand) ledger).released = ledger.released := by
  induction ids generalizing ledger with
  | nil => rfl
  | cons id rest ih => exact ih (ledger.quarantine demand id)

end Ledgers

namespace Run

variable {settings : Settings} {plans : List EpisodePlan} (run : Run plans)

@[simp] theorem released_finish : run.finish.ledger.released = run.ledger.released :=
  released_quarantineAll _ _ _

@[simp] theorem released_await (later : ℚ) : (run.await settings later).ledger.released = run.ledger.released := by
  rcases await_cases settings run later with ⟨-, same⟩ | ⟨-, same⟩ | ⟨-, same⟩
  · rw [same, released_finish]
  · rw [same, released_finish]
    exact released_quarantineAll _ _ _
  · rw [same]

theorem released_admitNative (indices : List (Fin plans.length)) (blocked : List String) :
    (run.admitNative settings indices blocked).ledger.released = run.ledger.released := by
  induction indices generalizing run blocked with
  | nil => rfl
  | cons index rest ih =>
    unfold admitNative
    split_ifs
    · rfl
    · exact ih run blocked
    · exact ih run blocked
    · exact ih run _
    · exact ih _ blocked

theorem released_iterate (now later : ℚ) :
    (run.iterate settings now later).ledger.released = run.ledger.released := by
  obtain ⟨stopped, deadline, same, -⟩ := observe_shape settings run now
  unfold iterate
  split_ifs
  · exact released_finish run
  · dsimp only
    rw [same]
    split
    · rw [released_await, released_admitNative]
    · split_ifs
      · rfl
      · rw [released_await]
    · rw [released_await]

theorem released_afterAdmit (group : GroupKey) (later : ℚ) (outcome : HookOutcome) :
    (run.afterAdmit settings group later outcome).ledger.released = run.ledger.released := by
  cases outcome with
  | returned closure =>
    unfold afterAdmit
    split_ifs
    · rw [released_await]
    · rw [released_await, admitWave, foldl_admitPlan]
      exact released_chargeAll _ _ _
  | raised text => exact released_await _ later
  | cancelled => exact released_finish _

/-- What a step releases has a result that is resolved. -/
theorem step_releases {next : Run plans} {action : RunAction plans} (stepped : run.step settings action = some next) :
    Releases run.ledger.released next.ledger.released fun index result => next.results index = some result := by
  cases step_moves stepped with
  | cancel | complete | wake | interrupt | again | settle | interruptClose => exact .still rfl
  | iterate => exact .still (released_iterate run _ _)
  | admitted => exact .still (released_afterAdmit run _ _ _)
  | start =>
    refine .still ?_
    unfold startNext
    repeat' split
    all_goals rfl
  | started =>
    refine .still ?_
    unfold afterStart
    split
    · rfl
    · exact released_finish _
    · exact released_finish _
  | closed =>
    refine .still ?_
    unfold afterClose
    dsimp only
    repeat' split
    all_goals rfl
  | process place found =>
    rename_i index rest now later outcome
    obtain ⟨token, stopped, same, -⟩ := process_shape settings run index rest (execute (planAt plans index) outcome)
    rw [same]
    cases policy : settings.policy with
    | terminalWaves =>
      exact .still (by simp [ledgerAfter, policy])
    | nativeGroups =>
      cases safe : (execute (planAt plans index) outcome).safe with
      | false =>
        exact .still (by simp [ledgerAfter, policy, Ledger.quarantine])
      | true =>
        refine ⟨[index], by simp [ledgerAfter, policy, Ledger.release], fun other mem => ?_⟩
        obtain rfl := mem_singleton.mp mem
        exact ⟨_, Function.update_self .., resolved_of_safe safe⟩
  | finished place =>
    rename_i index rest outcome later
    cases outcome with
    | returned closure =>
      unfold afterFinish
      dsimp only
      split_ifs with safe
      · refine ⟨indicesOf plans (planAt plans index).group, released_releaseAll _ _ _, fun sibling mem => ?_⟩
        rw [Bool.and_eq_true, all_eq_true] at safe
        obtain ⟨result, found, fine⟩ := (Option.any_eq_true _ _).mp (safe.1 sibling mem)
        exact ⟨result, found, resolved_of_safe fine⟩
      · exact .still (released_quarantineAll _ _ _)
    | raised | cancelled =>
      -- What a hook that fails is taken to have returned is uncertain.
      refine .still ?_
      unfold afterFinish
      dsimp only
      rw [if_neg (by rw [Bool.and_eq_true]; exact fun both => by simp [closureOf, error_uncertain] at both)]
      exact released_quarantineAll _ _ _

end Run

namespace Stream

variable {settings : Settings} {stream : Stream}

/-- The result of an episode that a step sees: the one that ends now, or one of a finished coroutine. -/
inductive Returned (stream : Stream) (action : StreamAction) : Ticket → EpisodeResult → Prop
  | now {number position : ℕ} {outcome : Outcome} {call : Call} {job : Job} (same : action = .complete number position outcome)
      (found : stream.calls[number]? = some call) (there : call.jobs[position]? = some job) :
      Returned stream action job.ticket (execute job.ticket.plan outcome)
  | before {call : Call} {job : Job} {result : EpisodeResult} (known : call ∈ stream.calls) (member : job ∈ call.jobs)
      (state : job.state = .finished result) : Returned stream action job.ticket result

theorem released_reserveWave (call : Call) (offset : ℕ) :
    (stream.reserveWave settings call offset).ledger.released = stream.ledger.released := by
  unfold reserveWave
  dsimp only
  split_ifs
  · rfl
  · exact released_chargeAll _ _ _
  · rfl

theorem released_attempt (call : Call) (position : ℕ) (job : Job) :
    (stream.attempt settings call position job).ledger.released = stream.ledger.released := by
  unfold attempt
  split_ifs <;> rfl

theorem settleWave_lost (call : Call) (offset : ℕ) (observed : List EpisodeResult) {closure : Option Mapping}
    (unsafe_ : (observed.all EpisodeResult.safe && !requestUncertain closure) = false) :
    (stream.settleWave settings call offset observed closure).ledger.released = stream.ledger.released := by
  unfold settleWave
  simp only [unsafe_, Bool.false_eq_true, if_false]
  exact released_quarantineAll _ _ _

theorem step_releases {next : Stream} {action : StreamAction} (books : stream.Booked settings)
    (stepped : stream.step settings action = some next) :
    Releases stream.ledger.released next.ledger.released (Returned stream action) := by
  cases step_moves stepped with
  | interrupt | cancel | pause | resume | close | gathered | returned | collected => exact .still rfl
  | submit =>
    refine .still ?_
    unfold submit
    repeat' split
    all_goals rfl
  | enter =>
    refine .still ?_
    unfold enterGroup
    dsimp only
    split_ifs <;> rfl
  | next =>
    refine .still ?_
    unfold nextWave
    split_ifs
    · rfl
    · rfl
    · rfl
    · exact released_reserveWave _ _
  | reserve => exact .still (released_reserveWave _ _)
  | acquire | retry => exact .still (released_attempt _ _ _)
  | admitted found phase =>
    rename_i number offset call outcome
    refine .still ?_
    cases outcome with
    | returned closure => rfl
    | raised | cancelled => exact settleWave_lost _ _ _ (by simp [Run.closureOf, error_uncertain])
  | closed found phase =>
    rename_i number offset call outcome
    cases safe : call.observed.all EpisodeResult.safe && !requestUncertain (Run.closureOf outcome) with
    | false => exact .still (settleWave_lost _ _ _ safe)
    | true =>
      have member := mem_of_getElem? found
      have placed := (books.sound call member).placed
      unfold Call.Placed at placed
      simp only [phase] at placed
      obtain ⟨-, gathering, gathered⟩ := placed
      refine ⟨call.selected settings offset, ?_, fun ticket inside => ?_⟩
      · unfold settleWave
        simp only [safe, if_true]
        exact released_releaseAll _ _ _
      · rw [← gathering.same] at inside
        obtain ⟨job, listed, rfl⟩ := mem_map.mp inside
        obtain ⟨result, ended⟩ := Option.isSome_iff_exists.mp (all_eq_true.mp gathered job listed)
        have state : job.state = .finished result := by
          unfold Job.result? at ended
          split at ended
          · rename_i other same
            rw [same, Option.some.inj ended]
          · cases ended
        rw [Bool.and_eq_true, all_eq_true] at safe
        have fine := safe.1 result (mem_filterMap.mpr ⟨job, listed, ended⟩)
        exact ⟨result, .before member listed state, resolved_of_safe fine⟩
  | complete found there state =>
    rename_i number position call job outcome
    by_cases owned : call.owned = true
    · exact .still (by simp [finish, owned, putJob, put, notifyAll])
    · cases safe : (execute job.ticket.plan outcome).safe with
      | false => exact .still (by simp [finish, owned, safe, putJob, put, notifyAll, Ledger.quarantine])
      | true =>
        refine ⟨[job.ticket], by simp [finish, owned, safe, putJob, put, notifyAll, Ledger.release], fun ticket member => ?_⟩
        obtain rfl := mem_singleton.mp member
        exact ⟨_, .now rfl found there, resolved_of_safe safe⟩

end Stream

/-- **Unresolved requests.** A record is uncertain exactly if it reaches an unresolved mapping, at any depth; and
no step of `run`, nor of a stream that has been opened, releases an episode whose result reaches one. -/
theorem unresolved_requests :
    (∀ state, requestUncertain (some state) = true ↔ ∃ inner, Within inner state ∧ Unresolved inner) ∧
    (∀ settings plans run, (runSystem settings plans).Reachable System.always run → ∀ action next,
      run.step settings action = some next →
        Releases run.ledger.released next.ledger.released fun index result => next.results index = some result) ∧
    ∀ settings pendingLimit stream, (streamSystem settings pendingLimit).Reachable System.always stream →
      ∀ action next, stream.step settings action = some next →
        Releases stream.ledger.released next.ledger.released (Stream.Returned stream action) :=
  ⟨fun _ => requestUncertain_iff, fun _ _ run _ _ _ stepped => run.step_releases stepped,
    fun _ _ _ reached _ _ stepped => Stream.step_releases (booked_run reached) stepped⟩

end TinyDSV41.Coordinator
