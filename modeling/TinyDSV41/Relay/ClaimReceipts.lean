/-
**Claims with receipts, within one boot of the CPU relay.**

A claim may carry an identity of its own. The first request with it owns its receipt: it polls the
queue until it has a job or its time is over, and completes the receipt; retries and lookups wait for
the receipt and read it. Owners and readers are threads; a thread may fail, lose its client or run out
of time at every step, and a response may be lost behind it.

* `Claims.beginReceipt`, `Receipt.finish`, `Claims.claimReceipt` — the receipts.
* `Claims.step` — the steps of owners and readers, between the other requests of the relay.
* `Claims.Sound`, `claims_sound_step` — what a receipt says of the jobs handed out and of the answers.
* `receipts_agree` — the answers of one claim agree, and it has one job at most.
-/

import TinyDSV41.Lib.Cells
import TinyDSV41.Relay.SpoolAccounting

namespace TinyDSV41.Relay

open List Lib AList Cells System
open Option (bind_eq_some_iff bind_some map_eq_some_iff map_some)

/-! ### Receipts -/

inductive ReceiptStatus
  | pending
  | complete
  | failed
deriving DecidableEq

/-- An entry of `claim_receipts`. -/
structure Receipt where
  parameters : Option String × ℕ
  status : ReceiptStatus
  jobId : Option Id
  expires : ℚ
  dispatchDeadline : ℚ

/-- The body of a claim; its fields may be missing. -/
structure ClaimValue where
  id : Option String
  waitMs : ℕ
  claimId : Option String
  bootId : Option String

/-- A successful answer to a claim with an identity, or to a lookup. -/
structure ClaimAnswer (Payload : Type) where
  claimId : Id
  pending : Bool
  job : Option (Job Payload)
  remaining : ℚ

inductive OwnerPlace
  | starting
  | polling
  | answering

/-- The thread of a claim that polls; without a claim identity it has no receipt. -/
structure Owner where
  claimId : Option Id
  requested : Option Id
  waitMs : ℕ
  deadline : ℚ
  place : OwnerPlace

structure Reader where
  claimId : String
  bootId : String
  deadline : ℚ

/-- The relay within one boot; `handedOut` and `answers` are history. -/
structure Claims (Payload : Type) where
  settings : RelaySettings
  cpu : Cpu Payload
  bootId : String
  deadline : ℚ
  stopping : Bool
  receipts : AList fun _ : Id => Receipt
  owners : AList fun _ : ℕ => Owner
  readers : AList fun _ : ℕ => Reader
  pollGate : Option ℕ
  receiptGate : Option ℕ
  threads : ℕ
  handedOut : List (Option Id × Id)
  answers : List (ClaimAnswer Payload)

/-- `finish_claim_receipt`, at these readings of the two clocks. -/
def Receipt.finish {Payload : Type} (receipt : Receipt) (settings : RelaySettings) (lifetime : ℚ)
    (job : Option (Job Payload)) (now wall : ℚ) : Receipt :=
  let maximum : ℚ := if job.any (·.operation = "generate") then settings.generationSeconds else 120
  let remains : ℚ := match job.bind (·.deadlineUnix) with
    | some deadline => now + deadline - wall
    | none => lifetime
  { receipt with
    status := .complete
    jobId := job.map (·.id)
    dispatchDeadline := min (min (now + maximum) lifetime) remains }

/-- The end of a receipt whose owner ends without completing it. -/
def Receipt.abandon (receipt : Receipt) : Receipt :=
  if receipt.status = .pending then { receipt with status := .failed } else receipt

namespace Claims

variable {Payload : Type} (rules : JobRules Payload) (claims : Claims Payload)

/-- `claim_receipt`. -/
def claimReceipt (claimId bootId : String) (now wall : ℚ) : Except RelayError (ClaimAnswer Payload) := do
  let id ← requireId "Invalid claim operation ID" claimId
  if bootId ≠ claims.bootId then .error (.conflict "CPU relay boot changed; no claim recovery")
  else
    match claims.receipts.lookup id with
    | none => .error (.unknown "Unknown request ID")
    | some receipt =>
      if claims.stopping ∨ receipt.expires ≤ now then
        .error (.gone "Claim receipt expired; no replay")
      else
        match receipt.status, receipt.jobId with
        | .failed, _ => .error (.gone "Claim outcome unavailable; reconcile without replay")
        | .pending, _ => .ok ⟨id, true, none, 0⟩
        | .complete, none => .ok ⟨id, false, none, 0⟩
        | .complete, some jobId =>
          if jobId.text ∈ claims.cpu.spool.outbox then
            .error (.gone "Claim already completed or cancelled; no replay")
          else
            let remaining := min receipt.dispatchDeadline claims.deadline - now
            if remaining ≤ 0 then
              .error (.gone "Claim dispatch deadline expired; no replay")
            else do
              let (job, deadline) ← readJob rules wall (some wall)
                (claims.cpu.spool.inflight.lookup jobId.text)
              if job.id ≠ jobId then .error (.value "Claim receipt job identity changed")
              else .ok ⟨id, false, some job, min remaining (deadline - wall) * 1000⟩

/-- `begin_claim_receipt`: the identity of the claim, and its new receipt if the caller owns it. -/
def beginReceipt (value : ClaimValue) (now wall : ℚ) : Except RelayError (Id × Option Receipt) := do
  let id ← requireId "Invalid claim operation ID" (value.claimId.getD "")
  if value.bootId ≠ some claims.bootId then
    .error (.conflict "CPU relay boot changed; no claim recovery")
  else
    match claims.receipts.lookup id with
    | some receipt =>
      if receipt.parameters ≠ (value.id, value.waitMs) then
        .error (.conflict "Claim operation parameters changed")
      else do
        let _ ← claims.claimReceipt rules id.text claims.bootId now wall
        .ok (id, none)
    | none =>
      if maxTracked ≤ claims.receipts.keys.length then
        .error (.capacity "Claim receipt limit reached; drain before restarting")
      else .ok (id, some ⟨(value.id, value.waitMs), .pending, none,
        min (now + claimReceiptTtl) claims.deadline, claims.deadline⟩)

/-- The checks of `claim_response`; the requested identity. -/
def checkClaim (value : ClaimValue) : Except RelayError (Option Id) :=
  if 5000 < value.waitMs then
    .error (.value "Claim wait_ms must be an integer from 0 through 5000")
  else
    match value.id with
    | none => .ok none
    | some text => (requireId "Invalid requested ID" text).map some

def enterReader (reader : Reader) : Except RelayError (Claims Payload) :=
  if claims.receiptGate.isSome then
    .error (.capacity "One claim receipt lookup is already outstanding")
  else .ok { claims with
    readers := claims.readers.insert claims.threads reader
    receiptGate := some claims.threads
    threads := claims.threads + 1 }

/-- `claim_response` up to its first poll. -/
def claimResponse (value : ClaimValue) (now wall : ℚ) : Except RelayError (Claims Payload) := do
  let requested ← checkClaim value
  if value.claimId.isNone ∧ value.bootId.isNone then
    .ok { claims with
      owners := claims.owners.insert claims.threads
        ⟨none, requested, value.waitMs, min (now + value.waitMs / 1000) claims.deadline, .starting⟩
      threads := claims.threads + 1 }
  else
    let (id, owned) ← claims.beginReceipt rules value now wall
    match owned with
    | none =>
      claims.enterReader ⟨id.text, claims.bootId, min (now + value.waitMs / 1000) claims.deadline⟩
    | some receipt => .ok { claims with
        receipts := claims.receipts.insert id receipt
        owners := claims.owners.insert claims.threads
          ⟨some id, requested, value.waitMs, min (now + value.waitMs / 1000) claims.deadline, .starting⟩
        threads := claims.threads + 1 }

def putReceipt (claimId : Option Id) (change : Receipt → Receipt) : AList fun _ : Id => Receipt :=
  match claimId.bind fun id => (claims.receipts.lookup id).map fun receipt => (id, receipt) with
  | none => claims.receipts
  | some (id, receipt) => claims.receipts.insert id (change receipt)

def leave (thread : ℕ) (owner : Owner) : Claims Payload :=
  { claims with
    receipts := claims.putReceipt owner.claimId Receipt.abandon
    owners := claims.owners.erase thread
    pollGate := if claims.pollGate = some thread then none else claims.pollGate }

/-- A starting owner takes the gate of the polls, if it is going to wait. -/
def enterPoll (thread : ℕ) (owner : Owner) : Claims Payload :=
  if owner.waitMs = 0 then
    { claims with owners := claims.owners.insert thread { owner with place := .polling } }
  else if claims.pollGate.isSome then claims.leave thread owner
  else { claims with
    owners := claims.owners.insert thread { owner with place := .polling }
    pollGate := some thread }

/-- One poll of an owner, under the lock: a claim, and the receipt if it is complete. -/
def poll (thread : ℕ) (owner : Owner) (listing : List String) (clock : ℕ → ℚ) (now : ℚ) :
    Option (Claims Payload) :=
  (claims.cpu.step rules (.run (.request (.claim owner.requested)) listing clock)).map fun cpu =>
    match ((claim rules claims.settings.maxInflight clock listing owner.requested).run
        claims.cpu.spool).2 with
    | .error _ => { claims with cpu := cpu }.leave thread owner
    | .ok job =>
      if job.isSome ∨ owner.deadline ≤ now then { claims with
        cpu := cpu
        receipts := claims.putReceipt owner.claimId
          (·.finish claims.settings claims.deadline job now (clock 0))
        owners := claims.owners.insert thread { owner with place := .answering }
        handedOut := claims.handedOut ++ (job.map fun job => (owner.claimId, job.id)).toList }
      else { claims with cpu := cpu }

/-- The answer of an owner with a receipt; an error is answered, too, but is no answer of the claim. -/
def answer (claimId bootId : String) (now wall : ℚ) : List (ClaimAnswer Payload) :=
  match claims.claimReceipt rules claimId bootId now wall with
  | .ok answer => claims.answers ++ [answer]
  | .error _ => claims.answers

end Claims

/-- What happens within one boot. Every thread can also fail, lose its client or run out of time
(`drop`). -/
inductive ClaimAction (Payload : Type)
  | submit (name : String) (file : File Payload)
  | other (request : CpuRequest) (listing : List String) (clock : ℕ → ℚ)
  | claim (value : ClaimValue) (now wall : ℚ)
  | lookup (claimId bootId : String) (waitMs : ℕ) (now : ℚ)
  | enter (thread : ℕ)
  | poll (thread : ℕ) (listing : List String) (clock : ℕ → ℚ) (now : ℚ)
  | answer (thread : ℕ) (now wall : ℚ)
  | read (thread : ℕ) (now wall : ℚ)
  | drop (thread : ℕ)
  | stopping

/-- The requests that `other` may make: claims are made by their owners. -/
def CpuRequest.isClaim : CpuRequest → Bool
  | .claim _ => true
  | _ => false

namespace Claims

variable {Payload : Type} (rules : JobRules Payload) (claims : Claims Payload)

def step : ClaimAction Payload → Option (Claims Payload)
  | .submit name file => (claims.cpu.step rules (.submit name file)).map fun cpu =>
    { claims with cpu := cpu }
  | .other request listing clock =>
    if request.isClaim then none
    else (claims.cpu.step rules (.run (.request request) listing clock)).map fun cpu =>
      { claims with cpu := cpu }
  | .claim value now wall => (claims.claimResponse rules value now wall).toOption
  | .lookup claimId bootId waitMs now => (claims.enterReader
      ⟨claimId, bootId, min (now + waitMs / 1000) claims.deadline⟩).toOption
  | .enter thread => (claims.owners.lookup thread).bind fun owner =>
    match owner.place with
    | .starting => some (claims.enterPoll thread owner)
    | _ => none
  | .poll thread listing clock now => (claims.owners.lookup thread).bind fun owner =>
    match owner.place with
    | .polling =>
      if claims.stopping ∨ claims.deadline ≤ now then none
      else claims.poll rules thread owner listing clock now
    | _ => none
  | .answer thread now wall => (claims.owners.lookup thread).bind fun owner =>
    match owner.place with
    | .answering => some { claims.leave thread owner with
        answers := match owner.claimId with
          | some id => claims.answer rules id.text claims.bootId now wall
          | none => claims.answers }
    | _ => none
  | .read thread now wall => (claims.readers.lookup thread).bind fun reader =>
    match claims.claimReceipt rules reader.claimId reader.bootId now wall with
    | .ok answer =>
      if answer.pending = true ∧ now < reader.deadline then some claims
      else some { claims with
        answers := claims.answers ++ [answer]
        readers := claims.readers.erase thread
        receiptGate := none }
    | .error _ => some { claims with
        readers := claims.readers.erase thread
        receiptGate := none }
  | .drop thread =>
    match claims.owners.lookup thread with
    | some owner => some (claims.leave thread owner)
    | none =>
      if thread ∈ claims.readers then some { claims with
        readers := claims.readers.erase thread
        receiptGate := none }
      else none
  | .stopping => some { claims with stopping := true }

end Claims

def claimSystem {Payload : Type} (rules : JobRules Payload) :
    System (Claims Payload) (ClaimAction Payload) where
  initial claims := ∃ settings cpu bootId deadline, cpu.process = some settings ∧
    (cpuSystem rules).Reachable always cpu ∧
    claims = ⟨settings, cpu, bootId, deadline, false, ∅, ∅, ∅, none, none, 0, [], []⟩
  step claims action := claims.step rules action

/-! ### Files and receipts -/

section Receipts

variable {Payload : Type} {rules : JobRules Payload}

theorem evolves_file {before after : Spool Payload} (path : (spoolFiles Payload).Evolves before after)
    {name : String} {file : File Payload} (found : before.inflight.lookup name = some file) :
    after.inflight.lookup name = some file := by
  refine path.keeps (·.inflight.lookup name = some file) (fun spool op legal holds => ?_) found
  change (spool.apply op).inflight.lookup name = some file
  rcases apply_cases legal with ⟨other, queued, -, free, -, moved⟩ | ⟨other, result, -, -, -, moved⟩
  · rw [moved]
    exact lookup_insert_fresh free holds
  · rw [moved]
    exact holds

variable {action : CpuAction Payload} {cpu : Cpu Payload}

theorem cpu_step_file {next : Cpu Payload} (sound : cpu.Sound)
    (stepped : cpu.step rules action = some next) {name : String} {file : File Payload}
    (found : cpu.spool.inflight.lookup name = some file) :
    next.spool.inflight.lookup name = some file := by
  cases action with
  | submit name file =>
    simp only [Cpu.step] at stepped
    split_ifs at stepped
    cases stepped
    exact found
  | run step listing clock =>
    obtain ⟨⟨ops, process, handed⟩, effect, rfl⟩ := map_eq_some_iff.mp stepped
    exact evolves_file (Storage.evolves_replay (cpu_effect sound effect).1) found
  | stop step listing clock operations =>
    obtain ⟨⟨ops, process, handed⟩, effect, rfl⟩ := map_eq_some_iff.mp stepped
    exact evolves_file (Storage.evolves_stopped (cpu_effect sound effect).1 operations) found

theorem readJob_file {excessive : ℚ} {expired : Option ℚ} {file : Option (File Payload)}
    {job : Job Payload} {deadline : ℚ}
    (read : readJob rules excessive expired file = .ok (job, deadline)) : file = some (.job job) := by
  unfold readJob at read
  split at read
  · cases read
  · cases read
  · rename_i found
    split at read
    · cases read
    · split_ifs at read
      cases checked : checkPayload rules found with
      | error message =>
        rw [checked] at read
        cases read
      | ok _ =>
        rw [checked] at read
        cases read
        rfl

variable {id : Id}

theorem requireId_text {message text : String} (done : requireId message text = .ok id) :
    id.text = text := by
  unfold requireId at done
  split_ifs at done
  cases done
  rfl

theorem id_ext {first second : Id} (same : first.text = second.text) : first = second := by
  cases first
  cases same
  rfl

/-- The receipt of a claim is complete, with this job or none. -/
def Completed (receipts : AList fun _ : Id => Receipt) (id : Id) (jobId : Option Id) : Prop :=
  ∃ receipt, receipts.lookup id = some receipt ∧ receipt.status = .complete ∧ receipt.jobId = jobId

theorem Completed.unique {receipts : AList fun _ : Id => Receipt} {first second : Option Id}
    (one : Completed receipts id first) (two : Completed receipts id second) : first = second := by
  obtain ⟨receipt, found, -, rfl⟩ := one
  obtain ⟨other, there, -, rfl⟩ := two
  rw [found] at there
  cases there
  rfl

namespace Claims

variable {claims next : Claims Payload}

theorem lookup_putReceipt (claims : Claims Payload) (claimId : Option Id) (change : Receipt → Receipt)
    (id : Id) : (claims.putReceipt claimId change).lookup id
      = if claimId = some id then (claims.receipts.lookup id).map change
        else claims.receipts.lookup id := by
  unfold putReceipt
  cases claimId with
  | none => rfl
  | some owned =>
    by_cases same : owned = id
    · subst same
      cases found : claims.receipts.lookup owned with
      | none => simp [found]
      | some receipt => simp [found, lookup_insert]
    · have other : some owned ≠ some id := fun equal => same (Option.some.inj equal)
      rw [if_neg other]
      cases found : claims.receipts.lookup owned with
      | none => simp [found]
      | some receipt =>
        simp only [found, bind_some, map_some]
        exact lookup_insert_ne (Ne.symm same)

theorem mem_putReceipt {claimId : Option Id} {change : Receipt → Receipt}
    (mem : id ∈ claims.receipts) : id ∈ claims.putReceipt claimId change := by
  obtain ⟨receipt, found⟩ := Option.isSome_iff_exists.mp (lookup_isSome.mpr mem)
  refine lookup_isSome.mp ?_
  rw [lookup_putReceipt, found]
  split_ifs <;> rfl

theorem completed_abandon (claimId : Option Id) (id : Id) (jobId : Option Id) :
    Completed (claims.putReceipt claimId Receipt.abandon) id jobId ↔
      Completed claims.receipts id jobId := by
  unfold Completed
  rw [lookup_putReceipt]
  split_ifs with owned
  · constructor
    all_goals rintro ⟨receipt, found, complete, same⟩
    · obtain ⟨old, there, rfl⟩ := map_eq_some_iff.mp found
      unfold Receipt.abandon at complete same
      split_ifs at complete same
      exact ⟨old, there, complete, same⟩
    · have kept : receipt.abandon = receipt := by
        unfold Receipt.abandon
        rw [if_neg (by rw [complete]; exact nofun)]
      exact ⟨receipt, by rw [found, map_some, kept], complete, same⟩
  · exact Iff.rfl

/-- An answer that is not pending repeats a complete receipt, with its job as it was claimed. -/
def Backed (claims : Claims Payload) (answer : ClaimAnswer Payload) : Prop :=
  (answer.pending = true → answer.job = none) ∧
  (answer.pending = false → Completed claims.receipts answer.claimId (answer.job.map (·.id)) ∧
    ∀ job ∈ answer.job, claims.cpu.spool.inflight.lookup job.id.text = some (.job job))

variable {answer : ClaimAnswer Payload}
variable {now wall : ℚ}

theorem claimReceipt_backed {claimId bootId : String}
    (answered : claims.claimReceipt rules claimId bootId now wall = .ok answer) :
    answer.claimId.text = claimId ∧ bootId = claims.bootId ∧ claims.Backed answer := by
  obtain ⟨id, required, rest⟩ := bind_ok answered
  have text := requireId_text required
  split_ifs at rest with boot
  have same := not_not.mp boot
  split at rest
  · cases rest
  · rename_i receipt found
    split_ifs at rest
    split at rest
    · cases rest
    · cases rest
      exact ⟨text, same, fun _ => rfl, nofun⟩
    · rename_i complete jobless
      cases rest
      refine ⟨text, same, fun _ => rfl, fun _ => ⟨⟨receipt, found, complete, jobless⟩, ?_⟩⟩
      exact nofun
    · rename_i jobId complete named
      dsimp only at rest
      split_ifs at rest
      obtain ⟨⟨job, deadline⟩, read, last⟩ := bind_ok rest
      split_ifs at last with changed
      cases last
      have there := readJob_file read
      have identity := not_not.mp changed
      refine ⟨text, same, nofun, fun _ => ⟨⟨receipt, found, complete, ?_⟩, ?_⟩⟩
      · rw [named, map_some, identity]
      · rintro other mem
        cases mem
        rw [identity]
        exact there

/-! ### The invariant of one boot -/

def Owns (claims : Claims Payload) (thread : ℕ) (owner : Owner) (id : Id) : Prop :=
  claims.owners.lookup thread = some owner ∧ owner.claimId = some id

/-- What the receipts say of the jobs handed out, of their owners and of the answers. -/
structure Sound (claims : Claims Payload) : Prop where
  cpu : claims.cpu.Sound
  live : claims.cpu.process = some claims.settings
  handed : ∃ before, claims.cpu.handed = before ++ claims.handedOut.map (·.2)
  counted : ∀ thread ∈ claims.owners, thread < claims.threads
  owned : ∀ thread owner id, claims.Owns thread owner id → id ∈ claims.receipts
  works : ∀ thread owner id receipt, claims.Owns thread owner id → owner.place ≠ .answering →
    claims.receipts.lookup id = some receipt → receipt.status = .pending
  alone : ∀ thread other owner owner' id, claims.Owns thread owner id →
    claims.Owns other owner' id → thread = other
  recorded : ∀ id job, (some id, job) ∈ claims.handedOut ↔ Completed claims.receipts id (some job)
  answered : ∀ answer ∈ claims.answers, claims.Backed answer

theorem Backed.mono (backed : claims.Backed answer)
    (receipts : ∀ id jobId, Completed claims.receipts id jobId → Completed next.receipts id jobId)
    (files : ∀ name file, claims.cpu.spool.inflight.lookup name = some file →
      next.cpu.spool.inflight.lookup name = some file) : next.Backed answer := by
  refine ⟨backed.1, fun done => ?_⟩
  obtain ⟨complete, job⟩ := backed.2 done
  exact ⟨receipts _ _ complete, fun other mem => files _ _ (job other mem)⟩

theorem sound_cpu (sound : claims.Sound) (stepped : claims.cpu.step rules action = some cpu)
    (live : cpu.process = claims.cpu.process) (same : cpu.handed = claims.cpu.handed) :
    { claims with cpu := cpu }.Sound where
  cpu := cpu_sound_step sound.cpu stepped
  live := live.trans sound.live
  handed := by
    obtain ⟨before, all⟩ := sound.handed
    exact ⟨before, same.trans all⟩
  counted := sound.counted
  owned := sound.owned
  works := sound.works
  alone := sound.alone
  recorded := sound.recorded
  answered answer member := (sound.answered answer member).mono (fun _ _ => id)
    fun _ _ found => cpu_step_file sound.cpu stepped found

theorem sound_answer (sound : claims.Sound) (backed : claims.Backed answer) :
    { claims with answers := claims.answers ++ [answer] }.Sound where
  cpu := sound.cpu
  live := sound.live
  handed := sound.handed
  counted := sound.counted
  owned := sound.owned
  works := sound.works
  alone := sound.alone
  recorded := sound.recorded
  answered := by
    intro other mem
    rcases mem_append.mp mem with before | new
    · exact sound.answered other before
    · obtain rfl := mem_singleton.mp new
      exact backed

variable {owner : Owner} {thread : ℕ}

section

variable (sound : claims.Sound)
include sound

section

variable (there : claims.owners.lookup thread = some owner)
include there

theorem sound_leave : (claims.leave thread owner).Sound where
  cpu := sound.cpu
  live := sound.live
  handed := sound.handed
  counted other member := sound.counted other (mem_erase.mp member).2
  owned other owner' id owns :=
    mem_putReceipt (sound.owned other owner' id ⟨(lookup_erase_cases owns.1).2, owns.2⟩)
  works := by
    rintro other owner' id receipt ⟨found, named⟩ place entry
    obtain ⟨different, before⟩ := lookup_erase_cases found
    change (claims.putReceipt owner.claimId Receipt.abandon).lookup id = some receipt at entry
    rw [lookup_putReceipt, if_neg] at entry
    · exact sound.works other owner' id receipt ⟨before, named⟩ place entry
    -- The receipt of another owner is another receipt.
    · exact fun same => different (sound.alone other thread owner' owner id ⟨before, named⟩ ⟨there, same⟩)
  alone other another owner' owner'' id owns owns' :=
    sound.alone other another owner' owner'' id ⟨(lookup_erase_cases owns.1).2, owns.2⟩
      ⟨(lookup_erase_cases owns'.1).2, owns'.2⟩
  recorded id job := (sound.recorded id job).trans (completed_abandon owner.claimId id (some job)).symm
  answered answer member := (sound.answered answer member).mono
    (fun id jobId => (completed_abandon owner.claimId id jobId).mpr) fun _ _ => id

theorem sound_move (place : OwnerPlace) (early : owner.place ≠ .answering) :
    { claims with owners := claims.owners.insert thread { owner with place := place } }.Sound := by
  -- Every owner is an old one, but for its place.
  have before : ∀ other owner' id,
      (claims.owners.insert thread { owner with place := place }).lookup other = some owner' →
      owner'.claimId = some id → ∃ old, claims.Owns other old id ∧
        (owner'.place ≠ .answering → old.place ≠ .answering) := by
    intro other owner' id found named
    rcases lookup_insert_cases found with ⟨rfl, rfl⟩ | ⟨-, old⟩
    · exact ⟨owner, ⟨there, named⟩, fun _ => early⟩
    · exact ⟨owner', ⟨old, named⟩, fun late => late⟩
  refine ⟨sound.cpu, sound.live, sound.handed, fun other mem => ?_, ?_, ?_, ?_, sound.recorded,
    sound.answered⟩
  · rcases (mem_insert _).mp mem with rfl | old
    · exact sound.counted other (mem_of_lookup there)
    · exact sound.counted other old
  · rintro other owner' id ⟨found, named⟩
    obtain ⟨old, owns, -⟩ := before other owner' id found named
    exact sound.owned other old id owns
  · rintro other owner' id receipt ⟨found, named⟩ late entry
    obtain ⟨old, owns, earlier⟩ := before other owner' id found named
    exact sound.works other old id receipt owns (earlier late) entry
  · rintro other another owner' owner'' id ⟨found, named⟩ ⟨found', named'⟩
    obtain ⟨old, owns, -⟩ := before other owner' id found named
    obtain ⟨old', owns', -⟩ := before another owner'' id found' named'
    exact sound.alone other another old old' id owns owns'

theorem sound_enterPoll (early : owner.place ≠ .answering) : (claims.enterPoll thread owner).Sound := by
  have moved := sound_move sound there .polling early
  unfold enterPoll
  split_ifs
  · exact moved
  · exact sound_leave sound there
  · exact ⟨moved.cpu, moved.live, moved.handed, moved.counted, moved.owned, moved.works, moved.alone,
      moved.recorded, moved.answered⟩

end

theorem sound_plain (plain : owner.claimId = none) : { claims with
      owners := claims.owners.insert claims.threads owner
      threads := claims.threads + 1 }.Sound := by
  have before : ∀ other owner' id,
      (claims.owners.insert claims.threads owner).lookup other = some owner' →
      owner'.claimId = some id → claims.Owns other owner' id := by
    intro other owner' id found named
    rcases lookup_insert_cases found with ⟨-, rfl⟩ | ⟨-, old⟩
    · rw [plain] at named
      cases named
    · exact ⟨old, named⟩
  refine ⟨sound.cpu, sound.live, sound.handed, fun other mem => ?_,
    fun other owner' id ⟨found, named⟩ => sound.owned other owner' id (before other owner' id found named),
    fun other owner' id receipt ⟨found, named⟩ =>
      sound.works other owner' id receipt (before other owner' id found named),
    fun other another owner' owner'' id ⟨found, named⟩ ⟨found', named'⟩ =>
      sound.alone other another owner' owner'' id (before other owner' id found named)
        (before another owner'' id found' named'),
    sound.recorded, sound.answered⟩
  rcases (mem_insert _).mp mem with rfl | old
  · exact Nat.lt_succ_self _
  · exact Nat.lt_succ_of_lt (sound.counted other old)

theorem sound_begin {receipt : Receipt} (fresh : id ∉ claims.receipts)
    (pending : receipt.status = .pending) (named : owner.claimId = some id) :
    { claims with
      receipts := claims.receipts.insert id receipt
      owners := claims.owners.insert claims.threads owner
      threads := claims.threads + 1 }.Sound := by
  have absent : ∀ other owner', ¬ claims.Owns other owner' id := fun other owner' owns =>
    fresh (sound.owned other owner' id owns)
  have complete : ∀ other jobId, Completed (claims.receipts.insert id receipt) other jobId ↔
      Completed claims.receipts other jobId := by
    intro other jobId
    constructor
    · rintro ⟨entry, found, done, same⟩
      rcases lookup_insert_cases found with ⟨rfl, rfl⟩ | ⟨-, old⟩
      · rw [pending] at done
        cases done
      · exact ⟨entry, old, done, same⟩
    · rintro ⟨entry, found, done, same⟩
      exact ⟨entry, lookup_insert_fresh fresh found, done, same⟩
  -- An owner is the new one with the new receipt, or an old one with another receipt.
  have cases : ∀ {other owner' id'},
      (claims.owners.insert claims.threads owner).lookup other = some owner' →
      owner'.claimId = some id' →
      (other = claims.threads ∧ id' = id) ∨ (id' ≠ id ∧ claims.Owns other owner' id') := by
    intro other owner' id' found claimed
    rcases lookup_insert_cases found with ⟨here, rfl⟩ | ⟨-, old⟩
    · rw [named] at claimed
      cases claimed
      exact Or.inl ⟨here, rfl⟩
    · refine Or.inr ⟨?_, old, claimed⟩
      rintro rfl
      exact absent other owner' ⟨old, claimed⟩
  refine ⟨sound.cpu, sound.live, sound.handed, fun other mem => ?_, ?_, ?_, ?_,
    fun other job => (sound.recorded other job).trans (complete other _).symm,
    fun answer mem => (sound.answered answer mem).mono
      (fun other jobId => (complete other jobId).mpr) fun _ _ found => found⟩
  · rcases (mem_insert _).mp mem with rfl | old
    · exact Nat.lt_succ_self _
    · exact Nat.lt_succ_of_lt (sound.counted other old)
  · rintro other owner' id' ⟨found, claimed⟩
    rcases cases found claimed with ⟨-, rfl⟩ | ⟨-, owns⟩
    · exact (mem_insert _).mpr (Or.inl rfl)
    · exact (mem_insert _).mpr (Or.inr (sound.owned other owner' id' owns))
  · rintro other owner' id' entry ⟨found, claimed⟩ late there
    rcases cases found claimed with ⟨-, rfl⟩ | ⟨different, owns⟩
    · rw [lookup_insert] at there
      cases there
      exact pending
    · rw [lookup_insert_ne different] at there
      exact sound.works other owner' id' entry owns late there
  · rintro other another owner' owner'' id' ⟨found, claimed⟩ ⟨found', claimed'⟩
    rcases cases found claimed with ⟨rfl, rfl⟩ | ⟨different, owns⟩
    · rcases cases found' claimed' with ⟨rfl, -⟩ | ⟨different, -⟩
      · rfl
      · exact absurd rfl different
    · rcases cases found' claimed' with ⟨-, same⟩ | ⟨-, owns'⟩
      · exact absurd same different
      · exact sound.alone other another owner' owner'' id' owns owns'

end

variable {value : ClaimValue}

theorem beginReceipt_fresh {receipt : Receipt}
    (begun : claims.beginReceipt rules value now wall = .ok (id, some receipt)) :
    id ∉ claims.receipts ∧ receipt.status = .pending := by
  obtain ⟨claimed, -, rest⟩ := bind_ok begun
  by_cases boot : value.bootId = some claims.bootId
  · cases found : claims.receipts.lookup claimed with
    | some entry =>
      rw [found] at rest
      dsimp only at rest
      split_ifs at rest
      obtain ⟨_, -, ends⟩ := bind_ok rest
      cases ends
    | none =>
      rw [found] at rest
      split_ifs at rest
      cases rest
      exact ⟨lookup_eq_none.mp found, rfl⟩
  · rw [if_pos boot] at rest
    cases rest

theorem sound_claimResponse (sound : claims.Sound)
    (responded : claims.claimResponse rules value now wall = .ok next) : next.Sound := by
  obtain ⟨requested, -, rest⟩ := bind_ok responded
  split_ifs at rest with plain
  · cases rest
    exact sound_plain sound rfl
  · obtain ⟨⟨id, owned⟩, begun, last⟩ := bind_ok rest
    cases owned with
    | none =>
      dsimp only [enterReader] at last
      split_ifs at last
      cases last
      exact ⟨sound.cpu, sound.live, sound.handed, fun other mem =>
        Nat.lt_succ_of_lt (sound.counted other mem), sound.owned, sound.works, sound.alone,
        sound.recorded, sound.answered⟩
    | some receipt =>
      cases last
      obtain ⟨fresh, pending⟩ := beginReceipt_fresh begun
      exact sound_begin sound fresh pending rfl

variable {listing : List String}
variable {clock : ℕ → ℚ}

theorem request_step {after : Cpu Payload} {settings : RelaySettings}
    (live : cpu.process = some settings) {request : CpuRequest}
    (stepped : cpu.step rules (.run (.request request) listing clock) = some after) :
    after.process = cpu.process ∧
    after.handed = cpu.handed ++ ((((serve rules settings clock listing request).run
      cpu.spool).2.toOption.join.map (·.id))).toList := by
  obtain ⟨⟨ops, process, handed⟩, effect, rfl⟩ := map_eq_some_iff.mp stepped
  simp only [Cpu.effect, live, bind_some] at effect
  split_ifs at effect
  cases effect
  exact ⟨live.symm, rfl⟩

theorem serve_none {settings : RelaySettings} {request : CpuRequest} (other : request.isClaim = false)
    (spool : Spool Payload) :
    ((serve rules settings clock listing request).run spool).2.toOption.join = none := by
  have ends : ∀ {Value : Type} (script : SpoolScript Payload Value),
      ((script >>= fun _ => (pure none : SpoolScript Payload (Option (Job Payload)))).run
        spool).2.toOption.join = none := by
    intro Value script
    cases ended : (script.run spool).2 with
    | error error =>
      rw [Script.run_bind_error ended]
      rfl
    | ok value =>
      rw [Script.run_bind_ok ended]
      rfl
  cases request with
  | claim requested => cases other
  | result | cancel | status => exact ends _

/-- An owner has its job, or its time is over: its receipt is completed. -/
theorem sound_finish (sound : claims.Sound) (there : claims.owners.lookup thread = some owner)
    (early : owner.place ≠ .answering) {job : Option (Job Payload)} (now wall : ℚ)
    (stepped : claims.cpu.step rules action = some cpu) (live : cpu.process = claims.cpu.process)
    (handed : cpu.handed = claims.cpu.handed ++ (job.map (·.id)).toList) :
    { claims with
      cpu := cpu
      receipts := claims.putReceipt owner.claimId (·.finish claims.settings claims.deadline job now wall)
      owners := claims.owners.insert thread { owner with place := .answering }
      handedOut := claims.handedOut ++
        (job.map fun found : Job Payload => (owner.claimId, found.id)).toList }.Sound := by
  have moved := sound_move sound there .answering early
  -- The receipt was pending, so that no answer and no job rests on it.
  have unfinished : ∀ id jobId, owner.claimId = some id → ¬ Completed claims.receipts id jobId := by
    rintro id jobId named ⟨receipt, found, complete, -⟩
    rw [sound.works thread owner id receipt ⟨there, named⟩ early found] at complete
    cases complete
  have completed : ∀ id jobId, Completed (claims.putReceipt owner.claimId
      (·.finish claims.settings claims.deadline job now wall)) id jobId ↔
      (owner.claimId = some id ∧ job.map (·.id) = jobId) ∨ Completed claims.receipts id jobId := by
    intro id jobId
    unfold Completed
    rw [lookup_putReceipt]
    by_cases named : owner.claimId = some id
    · rw [if_pos named]
      constructor
      · rintro ⟨receipt, found, -, same⟩
        obtain ⟨old, -, rfl⟩ := map_eq_some_iff.mp found
        exact Or.inl ⟨named, same⟩
      · rintro (⟨-, same⟩ | wrong)
        · have member := sound.owned thread owner id ⟨there, named⟩
          obtain ⟨old, found⟩ := Option.isSome_iff_exists.mp (lookup_isSome.mpr member)
          exact ⟨_, by rw [found]; rfl, rfl, same⟩
        · exact absurd wrong (unfinished id jobId named)
    · rw [if_neg named]
      exact (or_iff_right fun given => named given.1).symm
  refine ⟨cpu_sound_step sound.cpu stepped, live.trans sound.live, ?_, moved.counted,
    fun other owner' id owns => mem_putReceipt (moved.owned other owner' id owns), ?_, moved.alone, ?_, ?_⟩
  · obtain ⟨before, all⟩ := sound.handed
    refine ⟨before, ?_⟩
    rw [handed, all, append_assoc, map_append]
    cases job <;> rfl
  · rintro other owner' id receipt ⟨found, named⟩ late entry
    rcases lookup_insert_cases found with ⟨rfl, rfl⟩ | ⟨different, old⟩
    · exact absurd rfl late
    · rw [lookup_putReceipt, if_neg] at entry
      · exact sound.works other owner' id receipt ⟨old, named⟩ late entry
      · exact fun same =>
          different (sound.alone other thread owner' owner id ⟨old, named⟩ ⟨there, same⟩)
  · intro id jobId
    refine Iff.trans ?_ (completed id (some jobId)).symm
    rw [mem_append, sound.recorded, or_comm]
    refine or_congr ?_ Iff.rfl
    cases job with
    | none => simp
    | some found =>
      simp only [map_some, Option.toList_some, mem_singleton, Prod.mk.injEq, Option.some.injEq]
      exact ⟨fun ⟨named, same⟩ => ⟨named.symm, same.symm⟩, fun ⟨named, same⟩ =>
        ⟨named.symm, same.symm⟩⟩
  · intro answer member
    exact (sound.answered answer member).mono
      (fun id jobId complete => (completed id jobId).mpr (Or.inr complete))
      fun _ _ found => cpu_step_file sound.cpu stepped found

theorem sound_poll (sound : claims.Sound) (there : claims.owners.lookup thread = some owner)
    (early : owner.place ≠ .answering)
    (polled : claims.poll rules thread owner listing clock now = some next) : next.Sound := by
  obtain ⟨cpu, stepped, rfl⟩ := map_eq_some_iff.mp polled
  obtain ⟨live, handed⟩ := request_step sound.live stepped
  change cpu.handed = claims.cpu.handed ++ (((claim rules claims.settings.maxInflight clock listing
    owner.requested).run claims.cpu.spool).2.toOption.join.map (·.id)).toList at handed
  cases ended : ((claim rules claims.settings.maxInflight clock listing owner.requested).run
      claims.cpu.spool).2 with
  | error error =>
    rw [ended] at handed
    exact sound_leave (sound_cpu sound stepped live (handed.trans (append_nil _))) there
  | ok job =>
    rw [ended] at handed
    dsimp only
    split_ifs with ends
    · exact sound_finish sound there early now (clock 0) stepped live handed
    · have none_ : job = none := by
        cases job with
        | none => rfl
        | some job => exact absurd (Or.inl rfl) ends
      subst none_
      exact sound_cpu sound stepped live (handed.trans (append_nil _))

/-- Every step within a boot keeps the invariant. -/
theorem claims_sound_step (sound : claims.Sound) {action : ClaimAction Payload}
    (stepped : claims.step rules action = some next) : next.Sound := by
  cases action with
  | submit name file =>
    obtain ⟨cpu, moved, rfl⟩ := map_eq_some_iff.mp stepped
    have same : cpu.process = claims.cpu.process ∧ cpu.handed = claims.cpu.handed := by
      simp only [Cpu.step] at moved
      split_ifs at moved
      cases moved
      exact ⟨rfl, rfl⟩
    exact sound_cpu sound moved same.1 same.2
  | other request listing clock =>
    simp only [step] at stepped
    split_ifs at stepped with claims_
    obtain ⟨cpu, moved, rfl⟩ := map_eq_some_iff.mp stepped
    obtain ⟨live, handed⟩ := request_step sound.live moved
    rw [serve_none (Bool.eq_false_iff.mpr claims_)] at handed
    exact sound_cpu sound moved live (handed.trans (append_nil _))
  | claim value now wall => exact sound_claimResponse sound (ok_of_toOption stepped)
  | lookup claimId bootId waitMs now =>
    have entered := ok_of_toOption stepped
    unfold enterReader at entered
    split_ifs at entered
    cases entered
    exact ⟨sound.cpu, sound.live, sound.handed, fun other mem =>
      Nat.lt_succ_of_lt (sound.counted other mem), sound.owned, sound.works, sound.alone,
      sound.recorded, sound.answered⟩
  | enter thread =>
    obtain ⟨owner, there, entered⟩ := bind_eq_some_iff.mp stepped
    cases place : owner.place with
    | starting =>
      rw [place] at entered
      cases entered
      exact sound_enterPoll sound there (by rw [place]; exact fun wrong => by cases wrong)
    | polling | answering =>
      rw [place] at entered
      cases entered
  | poll thread listing clock now =>
    obtain ⟨owner, there, polled⟩ := bind_eq_some_iff.mp stepped
    cases place : owner.place with
    | polling =>
      rw [place] at polled
      split_ifs at polled
      exact sound_poll sound there (by rw [place]; exact fun wrong => by cases wrong) polled
    | starting | answering =>
      rw [place] at polled
      cases polled
  | answer thread now wall =>
    obtain ⟨owner, there, answers⟩ := bind_eq_some_iff.mp stepped
    have left := sound_leave sound there
    split at answers
    · cases answers
      cases named : owner.claimId with
      | none => exact left
      | some id =>
        dsimp only
        unfold Claims.answer
        split
        · rename_i answer answered
          refine sound_answer left ((claimReceipt_backed answered).2.2.mono ?_ fun _ _ found => found)
          exact fun other jobId => (completed_abandon owner.claimId other jobId).mpr
        · exact left
    · cases answers
  | read thread now wall =>
    obtain ⟨reader, -, reads⟩ := bind_eq_some_iff.mp stepped
    split at reads
    · rename_i answer answered
      split_ifs at reads
      · cases reads
        exact sound
      · cases reads
        have more := sound_answer sound (claimReceipt_backed answered).2.2
        exact ⟨more.cpu, more.live, more.handed, more.counted, more.owned, more.works, more.alone,
          more.recorded, more.answered⟩
    · cases reads
      exact ⟨sound.cpu, sound.live, sound.handed, sound.counted, sound.owned, sound.works,
        sound.alone, sound.recorded, sound.answered⟩
  | drop thread =>
    simp only [step] at stepped
    split at stepped
    · rename_i owner there
      cases stepped
      exact sound_leave sound there
    · split_ifs at stepped
      cases stepped
      exact ⟨sound.cpu, sound.live, sound.handed, sound.counted, sound.owned, sound.works,
        sound.alone, sound.recorded, sound.answered⟩
  | stopping =>
    cases stepped
    exact ⟨sound.cpu, sound.live, sound.handed, sound.counted, sound.owned, sound.works,
      sound.alone, sound.recorded, sound.answered⟩

theorem claims_sound_run (reached : (claimSystem rules).Reachable always claims) :
    claims.Sound := by
  refine reached.invariant Claims.Sound ?_ fun _ _ _ _ stepped sound => claims_sound_step sound stepped
  rintro start ⟨settings, cpu, bootId, deadline, live, known, rfl⟩
  have nothing : ∀ id job, ¬ Completed (∅ : AList fun _ : Id => Receipt) id job := by
    rintro id job ⟨receipt, found, -⟩
    cases found
  refine ⟨cpu_sound_run known, live, ⟨cpu.handed, (append_nil _).symm⟩, ?_, ?_, ?_, ?_, ?_, ?_⟩
  · intro thread mem
    cases mem
  · rintro thread owner id ⟨found, -⟩
    cases found
  · rintro thread owner id receipt ⟨found, -⟩
    cases found
  · rintro thread other owner owner' id ⟨found, -⟩
    cases found
  · exact fun id job => ⟨nofun, fun done => absurd done (nothing id _)⟩
  · intro answer mem
    cases mem

theorem claimResponse_refused {text : String} (named : value.claimId = some text)
    (changed : value.bootId ≠ some claims.bootId ∨ ∃ id receipt, id.text = text ∧ claims.receipts.lookup
      id = some receipt ∧ receipt.parameters ≠ (value.id, value.waitMs)) :
    ∃ error, claims.claimResponse rules value now wall = .error error := by
  cases responded : claims.claimResponse rules value now wall with
  | error error => exact ⟨error, rfl⟩
  | ok next =>
    obtain ⟨requested, -, rest⟩ := bind_ok responded
    rw [if_neg (by rw [named]; exact fun given => (by cases given.1))] at rest
    obtain ⟨begins, begun, -⟩ := bind_ok rest
    obtain ⟨claimed, required, later⟩ := bind_ok begun
    rw [named] at required
    have text_ := requireId_text required
    by_cases boot : value.bootId = some claims.bootId
    · rcases changed with other | ⟨id, receipt, same, found, different⟩
      · exact absurd boot other
      · obtain rfl := id_ext (same.trans text_.symm)
        rw [if_neg (not_not.mpr boot), found] at later
        dsimp only at later
        rw [if_pos different] at later
        cases later
    · rw [if_pos boot] at later
      cases later

end Claims

/-- Within one boot of the relay, whatever the order of the steps, whichever threads fail and whichever
answers are lost: all answers of one claim that are not pending carry the same job or none, and pending
ones carry none; a job that an answer carries was handed out for its claim; at most one job is handed
out for a claim, and no job twice; a claim with changed parameters or for another boot is refused, and a
lookup leaves the spool as it is. -/
theorem receipts_agree {Payload : Type} (rules : JobRules Payload) (claims : Claims Payload)
    (reached : (claimSystem rules).Reachable always claims) :
    (∀ first ∈ claims.answers, ∀ second ∈ claims.answers, first.claimId = second.claimId →
      first.pending = false → second.pending = false → first.job = second.job) ∧
    (∀ answer ∈ claims.answers, answer.pending = true → answer.job = none) ∧
    (∀ answer ∈ claims.answers, ∀ job ∈ answer.job, (some answer.claimId, job.id) ∈ claims.handedOut) ∧
    (∀ id first second, (some id, first) ∈ claims.handedOut → (some id, second) ∈ claims.handedOut →
      first = second) ∧
    (claims.handedOut.map (·.2)).Nodup ∧
    (∀ (value : ClaimValue) (now wall : ℚ) (text : String), value.claimId = some text →
      (value.bootId ≠ some claims.bootId ∨ ∃ id receipt, id.text = text ∧
        claims.receipts.lookup id = some receipt ∧ receipt.parameters ≠ (value.id, value.waitMs)) →
      (∃ error, claims.claimResponse rules value now wall = .error error) ∧
      claims.step rules (.claim value now wall) = none) ∧
    (∀ (thread waitMs : ℕ) (claimId bootId : String) (now wall : ℚ) (next : Claims Payload),
      claims.step rules (.lookup claimId bootId waitMs now) = some next ∨
        claims.step rules (.read thread now wall) = some next → next.cpu = claims.cpu) := by
  have sound := Claims.claims_sound_run reached
  refine ⟨?_, fun answer member => (sound.answered answer member).1, ?_, ?_, ?_, ?_, ?_⟩
  · intro first here second there same done done'
    obtain ⟨complete, file⟩ := (sound.answered first here).2 done
    obtain ⟨complete', file'⟩ := (sound.answered second there).2 done'
    rw [same] at complete
    have identity := complete.unique complete'
    -- Both jobs are the file that is claimed under their common identity.
    cases job : first.job with
    | none =>
      rw [job] at identity
      exact (Option.map_eq_none_iff.mp identity.symm).symm
    | some found =>
      rw [job] at identity
      obtain ⟨other, job', named⟩ := map_eq_some_iff.mp identity.symm
      have one := file found job
      have two := file' other job'
      rw [named, one] at two
      cases two
      exact job'.symm
  · intro answer member job carried
    cases pending : answer.pending with
    | true =>
      rw [(sound.answered answer member).1 pending] at carried
      cases carried
    | false =>
      obtain ⟨complete, -⟩ := (sound.answered answer member).2 pending
      rw [Option.mem_def.mp carried] at complete
      exact (sound.recorded _ _).mpr complete
  · intro id first second one two
    exact Option.some.inj (((sound.recorded id first).mp one).unique ((sound.recorded id second).mp two))
  · obtain ⟨before, all⟩ := sound.handed
    have once := sound.cpu.handedOnce
    rw [all] at once
    exact (nodup_append.mp once).2.1
  · intro value now wall text named changed
    have refusal : ∃ error, claims.claimResponse rules value now wall = .error error :=
      Claims.claimResponse_refused named changed
    obtain ⟨error, refused⟩ := refusal
    exact ⟨⟨error, refused⟩, by simp only [Claims.step, refused]; rfl⟩
  · rintro thread waitMs claimId bootId now wall next (entered | reads)
    · have result := ok_of_toOption entered
      unfold Claims.enterReader at result
      split_ifs at result
      cases result
      rfl
    · obtain ⟨reader, -, rest⟩ := bind_eq_some_iff.mp reads
      split at rest
      · split_ifs at rest <;> cases rest <;> rfl
      · cases rest
        rfl

end Receipts

/-! ### A claim, and a retry before its job is there -/

def claimTwice : List (ClaimAction Unit) :=
  [.claim ⟨none, 0, some sampleId.text, some "boot"⟩ 1 1,
    .claim ⟨none, 0, some sampleId.text, some "boot"⟩ 1 1, .read 1 1 1,
    .submit sampleId.text (.job (sampleJob sampleId)), .enter 0, .poll 0 [] (fun _ => 1) 1,
    .answer 0 1 1]

def freshClaims : Claims Unit :=
  ⟨oneRequest, ⟨⟨∅, ∅, ∅⟩, some oneRequest, [], [], []⟩, "boot", 1800, false, ∅, ∅, ∅, none, none, 0,
    [], []⟩

theorem claimSystem_fresh : (claimSystem openJobs).initial freshClaims := by
  have started : (cpuSystem openJobs).run always ⟨⟨∅, ∅, ∅⟩, none, [], [], []⟩
      [.run (.boot oneRequest) [] fun _ => 0]
      = some ⟨⟨∅, ∅, ∅⟩, some oneRequest, [], [], []⟩ := rfl
  exact ⟨oneRequest, _, "boot", 1800, rfl, reachable_of_run rfl started, rfl⟩

theorem claimTwice_answers : ((claimSystem openJobs).run always freshClaims claimTwice).map
    (fun claims => claims.answers.map fun answer =>
      (answer.claimId, answer.pending, answer.job.map (·.id)))
    = some [(sampleId, true, none), (sampleId, false, some sampleId)] := by
  decide +kernel

/-- A pending answer is successful, too, and carries no job while a later answer does. -/
theorem answers_differ : ¬ ∀ claims : Claims Unit, (claimSystem openJobs).Reachable always claims →
    ∀ first ∈ claims.answers, ∀ second ∈ claims.answers, first.claimId = second.claimId →
      first.job = second.job := by
  intro agree
  obtain ⟨claims, finish, same⟩ := map_eq_some_iff.mp claimTwice_answers
  have reached := reachable_of_run claimSystem_fresh finish
  obtain ⟨first, rest, all, one, others⟩ := map_eq_cons_iff.mp same
  obtain ⟨second, last, all', two, -⟩ := map_eq_cons_iff.mp others
  subst all'
  simp only [Prod.mk.injEq] at one two
  have equal := agree claims reached first (by rw [all]; simp) second (by rw [all]; simp)
    (one.1.trans two.1.symm)
  have jobless := one.2.2
  rw [equal, two.2.2] at jobless
  cases jobless

theorem receipts_agree_retry : ∃ claims : Claims Unit,
    (claimSystem openJobs).Reachable always claims ∧ claims.answers.length = 2 ∧
      (∀ answer ∈ claims.answers, answer.pending = true → answer.job = none) ∧
      (claims.handedOut.map (·.2)).Nodup := by
  obtain ⟨claims, finish, same⟩ := map_eq_some_iff.mp claimTwice_answers
  have reached := reachable_of_run claimSystem_fresh finish
  obtain ⟨-, pending, -, -, once, -⟩ := receipts_agree openJobs claims reached
  refine ⟨claims, reached, ?_, pending, once⟩
  have count := congrArg length same
  rwa [length_map] at count

end TinyDSV41.Relay
