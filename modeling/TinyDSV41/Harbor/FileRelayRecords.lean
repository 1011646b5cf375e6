/-
**What the state files of the agent's relay say.**

* `Sound`, `sound_kept` — what holds of the files behind every operation, of one call or of many.
* `Live` — a call that has its request file: its record is still to be written, and its state is justified.
* `prepare_ensures`, `publish_ensures`, `poll_ensures` — the parts of a call.
* `Orderly`, `orderly_step` — the calls of a process have requests of their own.
* `file_relay_records` — a request is linked at most once, and a certain record is one of a resolved request.
-/

import TinyDSV41.Harbor.FileRelay
import TinyDSV41.Lib.Threads

namespace TinyDSV41.Harbor

open List Lib Lib.Script Lib.System Lib.Threads Option Cells
open Coordinator (Mapping Value field isLiteral requestUncertain)

variable {rules : RelayRules}

/-! ### The files -/

section Files

variable {call other : GenerateCall} {files files' : RelayFiles} {id : String}

theorem Resolves.mono (resolves : Resolves rules files id)
    (published : ∀ id, id ∈ files'.published → id ∈ files.published)
    (requests : ∀ entry ∈ files.requests, entry ∈ files'.requests)
    (read : ∀ entry ∈ files.read, entry ∈ files'.read) : Resolves rules files' id := by
  rcases resolves with absent | ⟨response, there, success⟩ | ⟨payload, response, own, there, proven⟩
  · exact Or.inl fun mem => absent (published id mem)
  · exact Or.inr (Or.inl ⟨response, read _ there, success⟩)
  · exact Or.inr (Or.inr ⟨payload, response, requests _ own, read _ there, proven⟩)

/-- Every request was created and linked at most once, and a certain record is one of a resolved request. -/
structure Sound (rules : RelayRules) (files : RelayFiles) : Prop where
  once : files.published.Nodup
  requested : ∀ id ∈ files.published, id ∈ files.requests.map Prod.fst
  recorded : ∀ entry ∈ files.states, entry.1 ∈ files.requests.map Prod.fst
  resolved : ∀ id record, (id, some record) ∈ files.states → requestUncertain (some record) = false →
    Resolves rules files id

theorem Sound.empty : Sound rules ⟨[], [], [], [], []⟩ where
  once := nodup_nil
  requested := nofun
  recorded := nofun
  resolved := nofun

theorem sound_kept (desk : Desk) (op : RelayOp) (legal : (relaying rules call).legal desk op)
    (sound : Sound rules desk.files) : Sound rules ((relaying rules call).apply desk op).files := by
  obtain ⟨once, requested, recorded, resolved⟩ := sound
  cases op with
  | deadline | created | published | state | receipt | response => exact ⟨once, requested, recorded, resolved⟩
  | request =>
    have grows : ∀ {id}, id ∈ desk.files.requests.map Prod.fst →
        id ∈ (desk.files.requests ++ [(call.id, call.payload)]).map Prod.fst := fun mem => by
      rw [map_append]
      exact mem_append_left _ mem
    refine ⟨once, fun id mem => grows (requested id mem), fun entry mem => grows (recorded entry mem),
      fun id record mem certain => ?_⟩
    exact (resolved id record mem certain).mono (fun _ same => same)
      (fun _ there => mem_append_left _ there) fun _ there => there
  | read response =>
    refine ⟨once, requested, recorded, fun id record mem certain => ?_⟩
    exact (resolved id record mem certain).mono (fun _ same => same) (fun _ there => there)
      fun _ there => mem_append_left _ there
  | link =>
    obtain ⟨created, unpublished, unrecorded⟩ := legal
    refine ⟨?_, ?_, recorded, ?_⟩
    · refine nodup_append.mpr ⟨once, nodup_singleton _, ?_⟩
      rintro id mem _ own rfl
      exact unpublished (mem_singleton.mp own ▸ mem)
    · intro id mem
      rcases mem_append.mp mem with before | own
      · exact requested id before
      · rw [mem_singleton.mp own]
        exact created
    · -- The record of another request.
      intro id record mem certain
      have different : id ≠ call.id := by
        rintro rfl
        exact unrecorded (mem_map.mpr ⟨_, mem, rfl⟩)
      rcases resolved id record mem certain with absent | rest
      · refine Or.inl fun linked => ?_
        rcases mem_append.mp linked with before | own
        · exact absent before
        · exact different (mem_singleton.mp own)
      · exact Or.inr rest
  | record content =>
    obtain ⟨created, settled⟩ := legal
    refine ⟨once, requested, ?_, ?_⟩
    · intro entry mem
      rcases mem_append.mp mem with before | own
      · exact recorded entry before
      · rw [mem_singleton.mp own]
        exact created
    · intro id record mem certain
      rcases mem_append.mp mem with before | own
      · exact resolved id record before certain
      · obtain ⟨same, written⟩ := Prod.mk.inj (mem_singleton.mp own)
        rw [same]
        exact settled record written.symm certain

/-! ### A call with its request file -/

/-- What the state of a call says holds. -/
def Justified (rules : RelayRules) (call : GenerateCall) (files : RelayFiles) : RelayState → Prop
  | .errorBeforePublication | .cancelledBeforePublication => call.id ∉ files.published
  | .publishedOutcomeUnknown | .cancelledOutcomeUnknown | .deadlineExpiredOutcomeUnknown => True
  | .responseReceived => ∃ response, (call.id, response) ∈ files.read ∧ Success call.id response
  | .terminalFailureReceived =>
    ∃ response, (call.id, response) ∈ files.read ∧ Proven rules call.id call.payload response

theorem Justified.mono {state : RelayState} (justified : Justified rules call files state)
    (published : call.id ∈ files'.published → call.id ∈ files.published)
    (read : ∀ entry ∈ files.read, entry ∈ files'.read) : Justified rules call files' state := by
  cases state with
  | errorBeforePublication | cancelledBeforePublication => exact fun mem => justified (published mem)
  | responseReceived | terminalFailureReceived => exact justified.imp fun _ known => ⟨read _ known.1, known.2⟩
  | _ => exact trivial

/-- A call that has created its request file, and has still to write its record. -/
structure Live (rules : RelayRules) (call : GenerateCall) (files : RelayFiles) (frame : Frame) : Prop where
  requested : (call.id, call.payload) ∈ files.requests
  unrecorded : call.id ∉ files.states.map Prod.fst
  unpublished : frame.published = false → call.id ∉ files.published
  justified : Justified rules call files frame.state

theorem live_other {frame : Frame} (different : other.id ≠ call.id) (desk : Desk) (op : RelayOp)
    (live : Live rules other desk.files frame) :
    Live rules other ((relaying rules call).apply desk op).files frame := by
  obtain ⟨requested, unrecorded, unpublished, justified⟩ := live
  have same : ∀ {id : String}, id ∈ desk.files.published → id ∈ desk.files.published := fun mem => mem
  cases op with
  | request =>
    exact ⟨List.mem_append_left _ requested, unrecorded, unpublished, justified.mono same fun _ there => there⟩
  | read response =>
    exact ⟨requested, unrecorded, unpublished, justified.mono same fun _ there => mem_append_left _ there⟩
  | response => exact ⟨requested, unrecorded, unpublished, justified.mono same fun _ there => there⟩
  | link =>
    have before : other.id ∈ desk.files.published ++ [call.id] → other.id ∈ desk.files.published := fun mem =>
      (mem_append.mp mem).resolve_right fun own => different (mem_singleton.mp own)
    exact ⟨requested, unrecorded, fun unlinked mem => unpublished unlinked (before mem),
      justified.mono before fun _ there => there⟩
  | record content =>
    refine ⟨requested, fun mem => ?_, unpublished, justified.mono same fun _ there => there⟩
    change other.id ∈ (desk.files.states ++ [(call.id, content)]).map Prod.fst at mem
    rw [map_append] at mem
    rcases mem_append.mp mem with before | own
    · exact unrecorded before
    · exact different (mem_singleton.mp own)
  | _ => exact ⟨requested, unrecorded, unpublished, justified⟩

end Files

/-! ### The record -/

section Records

variable {call : GenerateCall} {files : RelayFiles} {frame : Frame}

theorem stateRecord_state (call : GenerateCall) (frame : Frame) :
    (stateRecord call frame).get "state" = some (.text frame.state.text) := by
  unfold stateRecord
  cases frame.failureReceipt <;> simp [Mapping.get]

theorem uncertain_of_unknown (unknown : Coordinator.mentions frame.state.text "unknown" = true) :
    requestUncertain (some (stateRecord call frame)) = true := by
  have here : Coordinator.unresolvedHere (stateRecord call frame) = true := by
    unfold Coordinator.unresolvedHere
    rw [Bool.or_eq_true]
    right
    refine any_eq_true.mpr ⟨"state", by simp, ?_⟩
    simp only [stateRecord_state, getD_some, Value.str, unknown, Bool.true_or]
  show (Value.mapping (stateRecord call frame)).unresolved = true
  rw [Value.unresolved, here, Bool.true_or]

theorem Live.resolves (live : Live rules call files frame)
    (certain : requestUncertain (some (stateRecord call frame)) = false) : Resolves rules files call.id := by
  have known : ∀ state, frame.state = state → Coordinator.mentions state.text "unknown" = true → False := by
    rintro _ rfl unknown
    rw [uncertain_of_unknown unknown] at certain
    cases certain
  have justified := live.justified
  cases state : frame.state with rw [state] at justified
  | errorBeforePublication | cancelledBeforePublication =>
    exact Or.inl justified
  | publishedOutcomeUnknown | cancelledOutcomeUnknown | deadlineExpiredOutcomeUnknown =>
    exact absurd (by decide +kernel) (known _ state)
  | responseReceived =>
    exact Or.inr (Or.inl justified)
  | terminalFailureReceived =>
    obtain ⟨response, there, proven⟩ := justified
    exact Or.inr (Or.inr ⟨call.payload, response, live.requested, there, proven⟩)

end Records

/-! ### The parts of a call -/

variable {desk : Desk}
variable {pre : Desk → Prop}

section Parts

variable {call : GenerateCall} {env : RelayEnv}

def Alive (rules : RelayRules) (call : GenerateCall) (desk : Desk) : Prop := Live rules call desk.files desk.frame

def Unlinked (rules : RelayRules) (call : GenerateCall) (desk : Desk) : Prop :=
  Alive rules call desk ∧ desk.frame.published = false

section

variable (alive : Alive rules call desk)
include alive

theorem Alive.local {frame : Frame} (published : frame.published = false → desk.frame.published = false)
    (justified : Justified rules call desk.files frame.state) : Alive rules call ⟨desk.files, frame⟩ :=
  ⟨alive.requested, alive.unrecorded, fun same => alive.unpublished (published same), justified⟩

theorem Alive.response : Alive rules call (desk.apply call .response) :=
  ⟨alive.requested, alive.unrecorded, alive.unpublished,
    alive.justified.mono (fun mem => mem) fun _ there => there⟩

theorem requested_id : call.id ∈ desk.files.requests.map Prod.fst := mem_map.mpr ⟨_, alive.requested, rfl⟩

end

/-- What `write_new` keeps. -/
theorem writeNew_ensures {file : NewFile} {torn written : RelayOp} {post fails : Desk → Prop}
    (raises : ∀ desk, pre desk → fails desk)
    (tears : ∀ desk, pre desk → ¬ desk.holds call file = true → (relaying rules call).legal desk torn ∧
      fails (desk.apply call torn))
    (writes : ∀ desk, pre desk → ¬ desk.holds call file = true → (relaying rules call).legal desk
      written ∧ post (desk.apply call written)) :
    Ensures pre (writeNew rules call env file torn written) (fun _ => post) fails := by
  refine ensures_read fun desk given => ensures_ite (fun _ => ?_) fun absent => ?_
  · exact ensures_raise fun _ same => same ▸ raises desk given
  · cases env.create file with
    | refused => exact ensures_raise fun _ same => same ▸ raises desk given
    | torn =>
      refine ensures_performBind fails ?_ ?_ (ensures_raise fun _ failed => failed)
      · rintro _ rfl
        exact (tears _ given absent).1
      · rintro _ rfl
        exact (tears _ given absent).2
    | written =>
      refine ensures_perform ?_ ?_
      · rintro _ rfl
        exact (writes _ given absent).1
      · rintro _ rfl
        exact (writes _ given absent).2

/-- The `finally` writes a record that is legal. -/
theorem recordState_ensures :
    Ensures (Alive rules call) (recordState rules call env) (fun _ _ => True) fun _ => True := by
  refine ensures_read fun desk alive => ensures_liftBind (fun _ _ => trivial) fun _ _ => ?_
  refine writeNew_ensures (fun _ _ => trivial) ?_ ?_
  · rintro _ rfl _
    exact ⟨⟨requested_id alive, nofun⟩, trivial⟩
  · rintro _ rfl _
    refine ⟨⟨requested_id alive, ?_⟩, trivial⟩
    rintro record ⟨⟩ certain
    exact alive.resolves certain

/-- The `except` raises again, with a state that is justified. -/
theorem cancelledState_ensures {raised : RelayRaised} :
    Ensures (Alive rules call) (cancelledState rules call raised) (fun _ _ => False) (Alive rules call) := by
  refine ensures_read fun desk alive => ensures_ite (fun _ => ?_) fun _ => ensures_raise fun _ same => same ▸ alive
  refine ensures_performBind (Alive rules call) (fun _ _ => trivial) ?_ (ensures_raise fun _ alive => alive)
  rintro other rfl
  refine alive.local (fun same => same) ?_
  cases linked : other.frame.published with
  | true => exact trivial
  | false => exact alive.unpublished linked

def Ends (waits : Desk → Prop) (returns : Desk → Prop) : Progress → Desk → Prop
  | .waits => waits
  | .returns _ => returns

theorem guarded_ensures {body : RelayScript rules call Progress} {waits : Desk → Prop}
    (ensures : Ensures pre body (Ends waits (Alive rules call)) (Alive rules call)) :
    Ensures pre (guarded rules call env body) (Ends waits fun _ => True) fun _ => True := by
  refine ensures_bind (Ends waits (Alive rules call)) ?_ fun progress => ?_
  · refine ensures_attempt ensures fun raised => ?_
    exact ensures_lastly cancelledState_ensures (fun _ _ wrong => wrong.elim) recordState_ensures
  · cases progress with
    | waits => exact ensures_done fun _ known => known
    | returns response =>
      refine ensures_bind (fun _ _ => True) recordState_ensures fun _ => ensures_done fun _ known => known

theorem readResponse_ensures {response : Json} :
    Ensures (fun desk => Alive rules call desk ∧ (call.id, response) ∈ desk.files.read)
      (readResponse rules call response) (fun _ => Alive rules call) (Alive rules call) := by
  refine ensures_liftBind (fun _ known => known.1) fun _ named => ?_
  obtain ⟨object, named⟩ := require_eq_ok.mp named
  refine ensures_ite (fun completed => ?_) fun _ => ?_
  · cases unfailed : response.get "generation_failure" with
    | some failure => exact ensures_raise fun _ known => known.1
    | none =>
      refine ensures_performBind (Alive rules call) (fun _ _ => trivial) (fun desk known => ?_)
        (ensures_done fun _ alive => alive)
      exact known.1.local (fun same => same) ⟨response, known.2, object, named, completed, unfailed⟩
  · refine ensures_liftBind (fun _ known => known.1) fun _ _ => ?_
    cases failed : response.get "generation_failure" with
    | none => exact ensures_raise fun _ known => known.1
    | some failure =>
      dsimp only
      cases validated : Coordinator.validateGenerationFailure (rules.evidenceDigest call.payload) call.id
          call.expectedPolicyAck failure with
      | error error => exact ensures_raise fun _ known => known.1
      | ok receipt =>
        refine ensures_performBind (fun desk => Alive rules call desk ∧ (call.id, response) ∈ desk.files.read)
          (fun _ _ => trivial) (fun desk known => ⟨known.1.local (fun same => same) known.1.justified, known.2⟩) ?_
        refine ensures_ite (fun proven => ?_) fun _ => ensures_raise fun _ known => known.1
        refine ensures_performBind (Alive rules call) (fun _ _ => trivial) (fun desk known => ?_)
          (ensures_raise fun _ alive => alive)
        exact known.1.local (fun same => same)
          ⟨response, known.2, call.expectedPolicyAck, failure, receipt, failed, validated, proven⟩

theorem pollOnce_ensures : Ensures (Alive rules call) (pollOnce rules call env) (fun _ => Alive rules call)
    (Alive rules call) := by
  refine ensures_read fun desk alive => ensures_ite (fun _ => ?_) fun _ => ?_
  · have here : ∀ other, other = desk → Alive rules call other := fun _ same => same ▸ alive
    refine ensures_liftBind here fun _ _ => ensures_liftBind here fun found _ => ?_
    cases found with
    | none => exact ensures_done here
    | some response =>
      have keeps : ∀ other, (Alive rules call other ∧ (call.id, response) ∈ other.files.read) →
          Alive rules call other := fun _ known => known.1
      refine ensures_performBind (fun desk => Alive rules call desk ∧ (call.id, response) ∈ desk.files.read)
        (fun _ _ => trivial) ?_ (ensures_liftBind keeps fun _ _ => ?_)
      · rintro _ rfl
        exact ⟨⟨alive.requested, alive.unrecorded, alive.unpublished, alive.justified.mono (fun mem => mem)
          fun _ there => mem_append_left _ there⟩, mem_append_right _ (mem_singleton_self _)⟩
      · refine ensures_bind (fun _ desk => Alive rules call desk ∧ (call.id, response) ∈ desk.files.read)
          (writeNew_ensures keeps ?_ ?_) fun _ => readResponse_ensures
        · exact fun _ known _ => ⟨trivial, known.1.response⟩
        · exact fun _ known _ => ⟨trivial, known.1.response, known.2⟩
  · refine ensures_performBind (Alive rules call) (fun _ _ => trivial) ?_ (ensures_raise fun _ alive => alive)
    rintro _ rfl
    exact alive.local (fun same => same) trivial

theorem publish_ensures : Ensures (Unlinked rules call) (publish rules call env)
    (Ends (Alive rules call) fun _ => True) fun _ => True := by
  have before : ∀ desk, Unlinked rules call desk → Alive rules call desk := fun _ known => known.1
  refine guarded_ensures (ensures_liftBind before fun _ _ => ensures_liftBind before fun _ _ => ?_)
  refine ensures_read fun desk unlinked => ?_
  have here : ∀ other, other = desk → Alive rules call other := fun _ same => same ▸ unlinked.1
  refine ensures_liftBind here fun _ _ => ensures_liftBind here fun _ _ => ?_
  -- Nothing raises between the link and the state that follows it.
  refine ensures_performBind (fun other => other.files.requests = desk.files.requests ∧
    other.files.states = desk.files.states) ?_ ?_ ?_
  · rintro _ rfl
    exact ⟨requested_id unlinked.1, unlinked.1.unpublished unlinked.2, unlinked.1.unrecorded⟩
  · rintro _ rfl
    exact ⟨rfl, rfl⟩
  · refine ensures_performBind (fun other => other.files.requests = desk.files.requests ∧
      other.files.states = desk.files.states ∧ other.frame.published = true) (fun _ _ => trivial)
      (fun _ known => ⟨known.1, known.2, rfl⟩) ?_
    refine ensures_performBind (Alive rules call) (fun _ _ => trivial) (fun other known => ?_) ?_
    · obtain ⟨requests, states, published⟩ := known
      refine ⟨?_, ?_, fun wrong => ?_, trivial⟩
      · change (call.id, call.payload) ∈ other.files.requests
        rw [requests]
        exact unlinked.1.requested
      · change call.id ∉ other.files.states.map Prod.fst
        rw [states]
        exact unlinked.1.unrecorded
      · change other.frame.published = false at wrong
        rw [published] at wrong
        cases wrong
    · refine pollOnce_ensures.weaken (fun _ alive => alive) (fun progress _ alive => ?_) fun _ alive => alive
      cases progress <;> exact alive

theorem poll_ensures : Ensures (Alive rules call) (poll rules call env) (Ends (Alive rules call) fun _ => True)
    fun _ => True := by
  refine guarded_ensures (ensures_liftBind (fun _ alive => alive) fun _ _ => ?_)
  refine pollOnce_ensures.weaken (fun _ alive => alive) (fun progress _ alive => ?_) fun _ alive => alive
  cases progress <;> exact alive

theorem prepare_ensures {timeout : ℚ} : Ensures (fun desk => Sound rules desk.files) (prepare rules call env timeout)
    (Ends (Unlinked rules call) fun _ => True) fun _ => True := by
  refine ensures_liftBind (fun _ _ => trivial) fun _ _ => ensures_liftBind (fun _ _ => trivial) fun _ _ => ?_
  refine ensures_performBind (fun desk => Sound rules desk.files ∧ desk.frame = .fresh (env.now + timeout))
    (fun _ _ => trivial) (fun _ sound => ⟨sound, rfl⟩) ?_
  refine ensures_liftBind (fun _ _ => trivial) fun _ _ => ensures_liftBind (fun _ _ => trivial) fun _ _ => ?_
  refine ensures_liftBind (fun _ _ => trivial) fun _ _ => ensures_liftBind (fun _ _ => trivial) fun _ _ => ?_
  -- The request file is new, so nothing was linked or recorded for the request.
  refine ensures_bind (fun _ => Unlinked rules call) (writeNew_ensures (fun _ _ => trivial) ?_ ?_) fun _ => ?_
  · exact fun _ _ absent => ⟨fun mem => absent (decide_eq_true mem), trivial⟩
  · rintro desk ⟨sound, fresh⟩ absent
    have absent : call.id ∉ desk.files.requests.map Prod.fst := fun mem => absent (decide_eq_true mem)
    have unlinked : call.id ∉ desk.files.published := fun mem => absent (sound.requested _ mem)
    refine ⟨absent, ⟨?_, ?_, fun _ => unlinked, ?_⟩, ?_⟩
    · exact mem_append_right _ (mem_singleton_self _)
    · intro mem
      obtain ⟨entry, there, same⟩ := mem_map.mp mem
      exact absent (same ▸ sound.recorded entry there)
    · change Justified rules call _ desk.frame.state
      rw [fresh]
      exact unlinked
    · change desk.frame.published = false
      rw [fresh]
      rfl
  · have before : ∀ desk, Unlinked rules call desk → Alive rules call desk := fun _ known => known.1
    refine guarded_ensures (ensures_liftBind before fun _ _ => ?_)
    refine ensures_performBind (Unlinked rules call) (fun _ _ => trivial)
      (fun _ known => ⟨known.1.local (fun same => same) known.1.justified, known.2⟩) ?_
    exact ensures_liftBind before fun _ _ => ensures_done fun _ unlinked => unlinked

theorem prepare_refused {timeout : ℚ} {files : RelayFiles} (created : call.id ∈ files.requests.map Prod.fst) :
    Ensures (fun desk => desk.files = files) (prepare rules call env timeout) (fun _ _ => False)
      fun desk => desk.files = files := by
  refine ensures_liftBind (fun _ same => same) fun _ _ => ensures_liftBind (fun _ same => same) fun _ _ => ?_
  refine ensures_performBind (fun desk => desk.files = files) (fun _ _ => trivial) (fun _ same => same) ?_
  refine ensures_liftBind (fun _ same => same) fun _ _ => ensures_liftBind (fun _ same => same) fun _ _ => ?_
  refine ensures_liftBind (fun _ same => same) fun _ _ => ensures_liftBind (fun _ same => same) fun _ _ => ?_
  refine ensures_bind (fun _ _ => False) (writeNew_ensures (fun _ same => same) ?_ ?_) fun _ _ wrong =>
    wrong.elim
  all_goals
    intro desk same absent
    exact absurd (decide_eq_true (same ▸ created)) absent

end Parts

/-! ### The calls of a process -/

section World

variable {world next : RelayWorld}

/-- The request that a call has created. -/
def CallPlace.id? : CallPlace → Option String
  | .waiting call _ | .polling call _ => some call.id
  | _ => none

def CallPlace.Holds (rules : RelayRules) (files : RelayFiles) : CallPlace → Prop
  | .waiting call frame => Unlinked rules call ⟨files, frame⟩
  | .polling call frame => Alive rules call ⟨files, frame⟩
  | _ => True

/-- The files are sound, and the calls have requests of their own. -/
structure Orderly (rules : RelayRules) (world : RelayWorld) : Prop where
  sound : Sound rules world.files
  live : Each (fun _ place => place.Holds rules world.files) world.calls
  apart : ∀ (thread other : ℕ) (place found : CallPlace), world.calls[thread]? = some place →
    world.calls[other]? = some found → ∀ id, place.id? = some id → found.id? = some id → thread = other

variable {place : CallPlace}

theorem CallPlace.Holds.requested {files : RelayFiles} {id : String} (holds : place.Holds rules files)
    (own : place.id? = some id) : id ∈ files.requests.map Prod.fst := by
  cases place with
  | waiting call frame =>
    cases own
    exact requested_id holds.1
  | polling call frame =>
    cases own
    exact requested_id holds
  | _ => cases own

theorem CallPlace.Holds.others (holds : place.Holds rules desk.files)
    (different : place.id? ≠ some call.id) (legal : (relaying rules call).Legal desk ops) :
    place.Holds rules ((relaying rules call).replay desk ops).files := by
  refine (Storage.evolves_replay legal).keeps (fun desk => place.Holds rules desk.files) ?_ holds
  intro before op _ known
  cases place with
  | waiting other frame =>
    exact ⟨live_other (fun same => different (congrArg some same)) before op known.1, known.2⟩
  | polling other frame => exact live_other (fun same => different (congrArg some same)) before op known
  | _ => exact trivial

def nextPlace (next : Frame → CallPlace) (result : Except RelayRaised Progress) (frame : Frame) : CallPlace :=
  match result with
  | .ok .waits => next frame
  | _ => .ended

theorem nextPlace_holds {script : RelayScript rules call Progress}
    {waits : Desk → Prop} {next : Frame → CallPlace}
    (ensures : Ensures pre script (Ends waits fun _ => True) fun _ => True) (given : pre desk)
    (holds : ∀ desk, waits desk → (next desk.frame).Holds rules desk.files) :
    (nextPlace next (script.run desk).2 ((relaying rules call).replay desk (script.run desk).1).frame).Holds rules
      ((relaying rules call).replay desk (script.run desk).1).files := by
  have ends := (ensures desk given).2
  cases result : (script.run desk).2 with
  | error raised => exact trivial
  | ok progress =>
    rw [result] at ends
    cases progress with
    | waits => exact holds _ ends
    | returns response => exact trivial

theorem nextPlace_id {next : Frame → CallPlace} {result : Except RelayRaised Progress} {frame : Frame} {id own : String}
    (named : (next frame).id? = some own) (found : (nextPlace next result frame).id? = some id) : id = own := by
  unfold nextPlace at found
  split at found
  · rw [named] at found
    exact (some.inj found).symm
  · cases found

/-- What a turn of a call does: it works on the files, legally, and either no other call has its request, or
the call is refused. -/
structure Turned (rules : RelayRules) (world : RelayWorld) (thread : ℕ) (call : GenerateCall) (desk : Desk)
    (ops : List RelayOp) (next : CallPlace) : Prop where
  starts : desk.files = world.files
  legal : (relaying rules call).Legal desk ops
  holds : next.Holds rules ((relaying rules call).replay desk ops).files
  own : ∀ id, next.id? = some id → id = call.id
  alone : (∀ other found, world.calls[other]? = some found → other ≠ thread → found.id? ≠ some call.id) ∨
    ((relaying rules call).replay desk ops).files = world.files ∧ next = .ended

variable {thread : ℕ}

theorem turn_turned (orderly : Orderly rules world) {next : CallPlace} {env : RelayEnv} (there : world.calls[thread]? = some place)
    (turned : world.turn rules place env = some (call, desk, ops, next)) :
    Turned rules world thread call desk ops next := by
  have live := orderly.live thread place there
  have alone : ∀ own, place.id? = some own → ∀ other found, world.calls[other]? = some found → other ≠ thread →
      found.id? ≠ some own := fun own named other found at_ different same =>
    different (orderly.apart other thread found place at_ there own same named)
  cases place with
  | entered call timeout =>
    cases turned
    have ensures : Ensures (fun desk => Sound rules desk.files) (prepare rules call env timeout)
        (Ends (Unlinked rules call) fun _ => True) fun _ => True := prepare_ensures
    refine ⟨rfl, (ensures ⟨world.files, .fresh 0⟩ orderly.sound).1, ?_, ?_, ?_⟩
    · exact nextPlace_holds ensures orderly.sound fun _ unlinked => unlinked
    · exact fun id => @nextPlace_id (.waiting call) _ _ _ _ rfl
    · by_cases created : call.id ∈ world.files.requests.map Prod.fst
      · right
        have refused : Ensures (fun desk => desk.files = world.files) (prepare rules call env timeout)
            (fun _ _ => False) fun desk => desk.files = world.files := prepare_refused created
        obtain ⟨-, ends⟩ := refused ⟨world.files, .fresh 0⟩ rfl
        cases result : ((prepare rules call env timeout).run ⟨world.files, .fresh 0⟩).2 with
        | error raised =>
          rw [result] at ends
          exact ⟨ends, rfl⟩
        | ok progress =>
          rw [result] at ends
          exact ends.elim
      · exact Or.inl fun other found at_ _ same => created ((orderly.live other found at_).requested same)
  | waiting call frame =>
    cases turned
    have ensures : Ensures (Unlinked rules call) (publish rules call env)
        (Ends (Alive rules call) fun _ => True) fun _ => True := publish_ensures
    exact ⟨rfl, (ensures ⟨world.files, frame⟩ live).1, nextPlace_holds ensures live fun _ alive => alive,
      fun id => @nextPlace_id (.polling call) _ _ _ _ rfl, Or.inl (alone _ rfl)⟩
  | polling call frame =>
    cases turned
    have ensures : Ensures (Alive rules call) (poll rules call env)
        (Ends (Alive rules call) fun _ => True) fun _ => True := poll_ensures
    exact ⟨rfl, (ensures ⟨world.files, frame⟩ live).1, nextPlace_holds ensures live fun _ alive => alive,
      fun id => @nextPlace_id (.polling call) _ _ _ _ rfl, Or.inl (alone _ rfl)⟩
  | ended => cases turned

theorem Turned.sound (orderly : Orderly rules world) {next : CallPlace}
    (turned : Turned rules world thread call desk ops next) (count : ℕ) :
    Sound rules ((relaying rules call).replay desk (ops.take count)).files :=
  (Storage.evolves_stopped turned.legal count).keeps (fun desk => Sound rules desk.files) sound_kept
    (turned.starts ▸ orderly.sound)

theorem Turned.orderly (orderly : Orderly rules world) {next : CallPlace}
    (turned : Turned rules world thread call desk ops next) :
    Orderly rules ⟨((relaying rules call).replay desk ops).files, world.calls.set thread next⟩ := by
  have sound := turned.sound orderly ops.length
  rw [take_length] at sound
  rcases turned.alone with alone | ⟨same, rfl⟩
  · refine ⟨sound, fun other found at_ => ?_, fun one two first second at_ at' id own own' => ?_⟩
    · rcases getElem?_set_cases at_ with ⟨rfl, rfl⟩ | ⟨different, before⟩
      · exact turned.holds
      · exact (turned.starts ▸ orderly.live other found before).others (alone other found before different) turned.legal
    · rcases getElem?_set_cases at_ with ⟨rfl, rfl⟩ | ⟨different, before⟩
      · rcases getElem?_set_cases at' with ⟨rfl, -⟩ | ⟨different', before'⟩
        · rfl
        · exact absurd (turned.own id own ▸ own') (alone two second before' different')
      · rcases getElem?_set_cases at' with ⟨rfl, rfl⟩ | ⟨-, before'⟩
        · exact absurd (turned.own id own' ▸ own) (alone one first before different)
        · exact orderly.apart one two first second before before' id own own'
  · -- A call that is refused leaves.
    rw [same] at sound ⊢
    refine ⟨sound, fun other found at_ => ?_, fun one two first second at_ at' id own own' => ?_⟩
    · rcases getElem?_set_cases at_ with ⟨-, rfl⟩ | ⟨-, before⟩
      · exact trivial
      · exact orderly.live other found before
    · rcases getElem?_set_cases at_ with ⟨-, rfl⟩ | ⟨-, before⟩
      · cases own
      · rcases getElem?_set_cases at' with ⟨-, rfl⟩ | ⟨-, before'⟩
        · cases own'
        · exact orderly.apart one two first second before before' id own own'

theorem orderly_step {action : RelayAction} (stepped : world.step rules action = some next)
    (orderly : Orderly rules world) : Orderly rules next := by
  cases action with
  | call call =>
    obtain ⟨timeout, -, rfl⟩ := map_eq_some_iff.mp stepped
    refine ⟨orderly.sound, orderly.live.spawn trivial, fun one two first second at_ at' id own own' => ?_⟩
    rcases spawn_cases at_ with ⟨-, rfl⟩ | before
    · cases own
    · rcases spawn_cases at' with ⟨-, rfl⟩ | before'
      · cases own'
      · exact orderly.apart one two first second before before' id own own'
  | turn thread env =>
    obtain ⟨place, there, rest⟩ := bind_eq_some_iff.mp stepped
    obtain ⟨⟨call, desk, ops, place'⟩, turned, same⟩ := bind_eq_some_iff.mp rest
    cases same
    exact (turn_turned orderly there turned).orderly orderly
  | stop thread env count =>
    obtain ⟨place, there, rest⟩ := bind_eq_some_iff.mp stepped
    obtain ⟨⟨call, desk, ops, place'⟩, turned, same⟩ := bind_eq_some_iff.mp rest
    cases same
    have left : ∀ {other : ℕ} {found : CallPlace}, (world.calls.map fun _ => CallPlace.ended)[other]? = some found →
        found = .ended := fun at_ => by
      rw [getElem?_map] at at_
      obtain ⟨_, -, rfl⟩ := map_eq_some_iff.mp at_
      rfl
    refine ⟨(turn_turned orderly there turned).sound orderly count, fun other found at_ => ?_,
      fun one two first second at_ _ id own => ?_⟩
    · rw [left at_]
      exact trivial
    · rw [left at_] at own
      cases own

theorem orderly_reachable (reached : (relaySystem rules).Reachable always world) : Orderly rules world := by
  refine reached.invariant (Orderly rules) ?_ fun _ _ _ _ stepped orderly => orderly_step stepped orderly
  rintro _ rfl
  exact ⟨Sound.empty, Each.nil, by simp⟩

/-- **Every request is put into the inbox at most once, and a record that is certain is one of a request that
was not published, that has a well-formed success response, or that is proven to have ended.** -/
theorem file_relay_records (reached : (relaySystem rules).Reachable always world) :
    world.files.published.Nodup ∧
    ∀ id record, (id, some record) ∈ world.files.states → requestUncertain (some record) = false →
      Resolves rules world.files id :=
  ⟨(orderly_reachable reached).sound.once, (orderly_reachable reached).sound.resolved⟩

end World

/-! ### A run -/

def sampleCall : GenerateCall where
  id := "00000000000000000000000000000001"
  payload := object [("model", literal "model008")]
  timeout := some 1
  expectedPolicyAck := none

def sampleResponse : Json :=
  object [("id", literal sampleCall.id), ("ok", .bool true), ("response", object [])]

def sampleData : List UInt8 := (jsonBytes sampleResponse).map fun letter => UInt8.ofNat letter.toNat

def sampleRules : RelayRules where
  strictJson data := if data = sampleData then .ok sampleResponse else .error .other
  evidenceDigest := fun _ => ""

def sampleEnv : RelayEnv where
  call := fun _ => .ok ()
  create := fun _ => .written
  now := 0
  pollNow := 0
  unix := 1700000000
  deadlineText := "1700000001.0".toList
  outbox := .file true sampleData.length sampleData true

def sampleRun : Option RelayWorld :=
  (relaySystem sampleRules).run always ⟨⟨[], [], [], [], []⟩, []⟩
    [.call sampleCall, .turn 0 sampleEnv, .turn 0 sampleEnv]

def sampleWorld : RelayWorld := sampleRun.get (by decide +kernel)

/-- The request of the run is published and recorded. -/
example : sampleWorld.files.published = [sampleCall.id] ∧
    sampleWorld.files.states.map Prod.fst = [sampleCall.id] := by decide +kernel

theorem sampleRun_ends : sampleRun = some sampleWorld := (some_get _).symm

theorem file_relay_records_received : sampleWorld.files.published.Nodup ∧
    ∀ id record, (id, some record) ∈ sampleWorld.files.states → requestUncertain (some record) = false →
      Resolves sampleRules sampleWorld.files id :=
  file_relay_records (reachable_of_run rfl sampleRun_ends)

end TinyDSV41.Harbor
