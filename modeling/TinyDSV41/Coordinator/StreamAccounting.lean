/-
**What the calls of a stream share balances at every step.**

Each call accounts for itself: its slots, its credit and its reservations are functions of where it
is (`Call.slots`, `Call.credit`, `Call.outstanding`). The shared counters and the ledger are the sums
over the calls (`Books`), and a step that changes one call changes the sums by that call alone
(`Books.replace`).

* `Call.Placed` — what holds of a call at each place of its coroutine.
* `booked_step` — every step keeps the books.
* `stream_accounts` — results, waves, credit and reservations of every reachable stream.
-/

import TinyDSV41.Coordinator.Stream

namespace TinyDSV41.Coordinator

open List Lib Call List.Subset Ticket Cells Ledger.Balanced EpisodeResult System Ledger.Within Bool
open Job (notify result?)

/-! ### One call -/

def Job.holds (job : Job) : Bool :=
  match job.state with
  | .reserving _ | .running => true
  | _ => false

def Job.waits (job : Job) : Bool :=
  match job.state with
  | .acquiring | .reserving _ => true
  | _ => false

/-- What a job without a wave has reserved. -/
def Job.outstanding (job : Job) : List Ticket :=
  match job.state with
  | .running => [job.ticket]
  | _ => []

namespace Call

def slots (call : Call) : ℕ := call.jobs.countP Job.holds

def inGroup (call : Call) : Bool :=
  match call.phase with
  | .queued | .done _ => false
  | _ => true

def credit (call : Call) : ℕ := if call.returned then 0 else call.plans.length

def outstanding (settings : Settings) (call : Call) : List Ticket :=
  match call.phase with
  | .collecting => call.jobs.flatMap Job.outstanding
  | .admitting offset | .running offset | .finishing offset => call.selected settings offset
  | _ => []

def identities (call : Call) : List EpisodeIdentity := call.plans.map (·.identity)

end Call

/-- The coroutines gathered for these tickets; a finished one has a result of its own plan. -/
structure Gathering (jobs : List Job) (tickets : List Ticket) : Prop where
  same : jobs.map (·.ticket) = tickets
  identity : ∀ job ∈ jobs, ∀ result, job.state = .finished result →
    result.identity = job.ticket.plan.identity

/-- A call inside its loop: the first `settled` plans have their results, and what was charged are the
waves before `admitted`. -/
structure Waving (settings : Settings) (call : Call) (settled admitted : ℕ) : Prop where
  waved : call.waved settings = true
  results : call.results.map (·.identity) = call.identities.take settled
  charged : call.admitted ++ waves settings (call.tickets.drop admitted) = waves settings call.tickets
  waits : call.returned = false

/-- A call whose wave at the offset is charged. -/
structure Charged (settings : Settings) (call : Call) (offset : ℕ) : Prop extends
    Waving settings call offset (offset + (call.selected settings offset).length) where
  last : call.admitted.getLast? = some (call.selected settings offset)

def Call.Placed (settings : Settings) (call : Call) : Prop :=
  match call.phase with
  | .queued => call.jobs = [] ∧ call.results = [] ∧ call.admitted = [] ∧ call.returned = false
  | .collecting => call.waved settings = false ∧ Gathering call.jobs call.tickets ∧
      call.admitted.flatten ⊆ call.tickets ∧ call.returned = false ∧
      ∀ job ∈ call.jobs, job.ticket ∈ call.admitted.flatten → job.waits = false
  | .waves offset => Waving settings call offset offset ∧ call.jobs = []
  | .reserving offset _ => Waving settings call offset offset ∧ offset < call.plans.length ∧
      call.jobs = []
  | .admitting offset => Charged settings call offset ∧ call.jobs = []
  | .running offset => Charged settings call offset ∧
      Gathering call.jobs (call.selected settings offset) ∧
      ∀ job ∈ call.jobs, ∀ notified, job.state ≠ .reserving notified
  | .finishing offset => Charged settings call offset ∧
      Gathering call.jobs (call.selected settings offset) ∧ call.gathered = true
  | .done outcome => call.gathered = true ∧ call.admitted.flatten ⊆ call.tickets ∧
      (call.waved settings = true → call.admitted <+: waves settings call.tickets) ∧
      ∃ results, outcome = .ok results ∧ results.map (·.identity) = call.identities

/-- A call is of acceptable plans, and where it says. -/
structure Call.Sound (settings : Settings) (call : Call) : Prop where
  acceptable : Acceptable settings call.plans
  placed : call.Placed settings

variable {ticket : Ticket}

section Tickets

variable {settings : Settings} {call : Call}

@[simp] theorem plansOf_tickets (call : Call) : plansOf call.tickets = call.plans := by
  simp [plansOf, tickets, Function.comp_def]

@[simp] theorem length_tickets (call : Call) : call.tickets.length = call.plans.length := by
  simp [tickets]

theorem call_of_mem_tickets (mem : ticket ∈ call.tickets) : ticket.call = call.number := by
  obtain ⟨plan, -, rfl⟩ := mem_map.mp mem
  rfl

theorem plan_of_mem_tickets (mem : ticket ∈ call.tickets) : ticket.plan ∈ call.plans := by
  rw [← plansOf_tickets call]
  exact mem_map_of_mem mem

theorem tickets_nodup (call : Call) : call.tickets.Nodup := by
  refine List.Nodup.of_map (·.index) ?_
  have indices : call.tickets.map (·.index) = range' 0 call.plans.length := by
    simp [tickets, Function.comp_def]
  rw [indices]
  exact nodup_range'

theorem tickets_validated (acceptable : Acceptable settings call.plans) :
    Validated settings call.tickets :=
  fun _ mem => acceptable.resources _ (plan_of_mem_tickets mem)

theorem selected_begins (settings : Settings) (call : Call) (offset : ℕ) :
    call.selected settings offset <+: call.tickets.drop offset :=
  (selectWave_spec settings _).1

theorem mem_selected {offset : ℕ} (mem : ticket ∈ call.selected settings offset) :
    ticket ∈ call.tickets :=
  mem_of_mem_drop ((selected_begins settings call offset).subset mem)

theorem identities_selected (settings : Settings) (call : Call) (offset : ℕ) :
    (plansOf (call.selected settings offset)).map (·.identity)
      = (call.identities.drop offset).take (call.selected settings offset).length := by
  have taken := prefix_iff_eq_take.mp (selected_begins settings call offset)
  conv_lhs => rw [taken]
  rw [identities, ← plansOf_tickets call]
  simp [plansOf, map_take, map_drop]

section

variable {offset : ℕ} (acceptable : Acceptable settings call.plans) (more : offset < call.plans.length)
include acceptable more

theorem selected_ne_nil : call.selected settings offset ≠ [] := by
  refine selectWave_ne_nil (fun ticket mem => ?_) ?_
  · exact tickets_validated acceptable ticket (mem_of_mem_drop mem)
  · rw [ne_eq, drop_eq_nil_iff, length_tickets]
    omega

theorem waves_drop : waves settings (call.tickets.drop offset) = call.selected settings offset
      :: waves settings (call.tickets.drop (offset + (call.selected settings offset).length)) := by
  rw [waves_eq_cons, drop_drop]
  · rfl
  · exact fun ticket mem =>
      tickets_validated acceptable ticket (mem_of_mem_drop mem)
  · rw [ne_eq, drop_eq_nil_iff, length_tickets]
    omega

end

/-- What was charged are the tickets before `admitted`. -/
theorem Waving.flatten {settled admitted : ℕ} (waving : Waving settings call settled admitted)
    (acceptable : Acceptable settings call.plans) :
    call.admitted.flatten ++ call.tickets.drop admitted = call.tickets := by
  have whole := congrArg List.flatten waving.charged
  rw [flatten_append, waves_flatten (tickets_validated acceptable), waves_flatten] at whole
  · exact whole
  · exact fun ticket mem =>
      tickets_validated acceptable ticket (mem_of_mem_drop mem)

theorem Call.Sound.admitted_subset (sound : call.Sound settings) :
    call.admitted.flatten ⊆ call.tickets := by
  have inside : ∀ settled admitted, Waving settings call settled admitted →
      call.admitted.flatten ⊆ call.tickets := by
    intro settled admitted waving ticket mem
    rw [← waving.flatten sound.acceptable]
    exact mem_append_left _ mem
  have placed := sound.placed
  unfold Call.Placed at placed
  split at placed
  case h_1 => simp [placed.2.2.1]
  case h_2 => exact placed.2.2.1
  case h_3 | h_4 => exact inside _ _ placed.1
  case h_5 | h_6 | h_7 => exact inside _ _ placed.1.toWaving
  case h_8 => exact placed.2.1

end Tickets

/-! ### The books -/

/-- The shared counters and the ledger are the sums over the calls. -/
structure Books (settings : Settings) (pendingLimit pending workers groups : ℕ)
    (ledger : Ledger Ticket Account ℚ) (calls : List Call) : Prop where
  numbered : ∀ (index : ℕ) (call : Call), calls[index]? = some call → call.number = index
  sound : ∀ call ∈ calls, call.Sound settings
  balanced : Ledger.Balanced demand ledger (calls.flatMap (Call.outstanding settings))
  within : Ledger.Within settings.limit ledger
  history : ∀ ticket ∈ ledger.charged, ∃ call ∈ calls, ticket ∈ call.admitted.flatten
  slotSum : workers + (calls.map Call.slots).sum = settings.maxWorkers
  groupSum : groups + calls.countP inGroup = settings.maxGroups
  creditSum : pending = (calls.map Call.credit).sum
  creditLimit : pending ≤ pendingLimit

/-- `Books` of a stream. -/
def Stream.Booked (settings : Settings) (stream : Stream) : Prop :=
  Books settings stream.pendingLimit stream.pending stream.workers stream.groups stream.ledger
    stream.calls

namespace Books

variable {settings : Settings} {pendingLimit pending workers groups : ℕ}
  {ledger : Ledger Ticket Account ℚ} {calls : List Call}

section

variable (books : Books settings pendingLimit pending workers groups ledger calls) {number : ℕ} {call : Call}
  (found : calls[number]? = some call)
include books found

theorem own : call.Sound settings := books.sound call (mem_of_getElem? found)

theorem put (after : Call) : calls.set call.number after = calls.set number after := by
  rw [books.numbered number call found]

end

theorem fresh (books : Books settings pendingLimit pending workers groups ledger calls) {number : ℕ}
    {call : Call} (found : calls[number]? = some call) (own : ticket.call = call.number)
    (absent : ticket ∉ call.admitted.flatten) :
    ticket ∉ ledger.charged := by
  intro charged
  obtain ⟨other, mem, there⟩ := books.history ticket charged
  obtain ⟨index, elsewhere⟩ := mem_iff_getElem?.mp mem
  have same : other.number = call.number := by
    rw [← own, call_of_mem_tickets ((books.sound other mem).admitted_subset there)]
  have place : index = number := by
    rw [← books.numbered index other elsewhere, same, books.numbered number call found]
  rw [place, found] at elsewhere
  cases elsewhere
  exact absent there

/-- A step that changes one call changes the sums by that call alone. -/
theorem replace (books : Books settings pendingLimit pending workers groups ledger calls)
    {number : ℕ} {call next : Call} (found : calls[number]? = some call)
    {pending' workers' groups' : ℕ} {ledger' : Ledger Ticket Account ℚ}
    (same : next.number = call.number) (sound : next.Sound settings)
    (balanced : ∀ rest, Ledger.Balanced demand ledger (call.outstanding settings ++ rest) →
      Ledger.Balanced demand ledger' (next.outstanding settings ++ rest))
    (within : Ledger.Within settings.limit ledger')
    (history : ∀ ticket ∈ ledger'.charged, ticket ∈ ledger.charged ∨ ticket ∈ next.admitted.flatten)
    (kept : call.admitted.flatten ⊆ next.admitted.flatten)
    (slots : workers' + next.slots = workers + call.slots)
    (inside : groups' + (if next.inGroup then 1 else 0) = groups + if call.inGroup then 1 else 0)
    (owed : pending' + call.credit = pending + next.credit) (credit : pending' ≤ pendingLimit) :
    Books settings pendingLimit pending' workers' groups' ledger' (calls.set call.number next) where
  numbered index other there := by
    rcases getElem?_set_cases there with ⟨rfl, rfl⟩ | ⟨-, old⟩
    · exact same
    · exact books.numbered index other old
  sound other member := by
    rcases mem_set member with rfl | old
    · exact sound
    · exact books.sound other old
  balanced := by
    rw [books.numbered number call found]
    obtain ⟨rest, before, after⟩ := flatMap_set (Call.outstanding settings) found
    exact (balanced rest (books.balanced.perm before)).perm (after next).symm
  within := within
  history ticket charged := by
    rw [books.numbered number call found]
    have inside : next ∈ calls.set number next :=
      mem_set (List.getElem?_eq_some_iff.mp found).1 next
    rcases history ticket charged with old | new
    · obtain ⟨other, member, there⟩ := books.history ticket old
      obtain ⟨index, place⟩ := mem_iff_getElem?.mp member
      by_cases here : number = index
      · rw [← here, found] at place
        cases place
        exact ⟨next, inside, kept there⟩
      · refine ⟨other, mem_iff_getElem?.mpr ⟨index, ?_⟩, there⟩
        rw [getElem?_set_ne here]
        exact place
    · exact ⟨next, inside, new⟩
  slotSum := by
    rw [books.numbered number call found]
    have sums := sum_set Call.slots found next
    have total := books.slotSum
    omega
  groupSum := by
    rw [books.numbered number call found]
    have counts := countP_set inGroup found next
    have total := books.groupSum
    omega
  creditSum := by
    rw [books.numbered number call found]
    have sums := sum_set Call.credit found next
    have total := books.creditSum
    omega
  creditLimit := credit

end Books

/-! ### Notifications -/

variable {tickets : List Ticket}

section Notify

variable {settings : Settings}

section

variable (job : Job)
include job

@[simp] theorem Job.notify_ticket : job.notify.ticket = job.ticket := by
  unfold notify
  split <;> rfl

@[simp] theorem Job.notify_holds : job.notify.holds = job.holds := by
  unfold notify Job.holds
  cases state : job.state <;> simp [state]

@[simp] theorem Job.notify_waits : job.notify.waits = job.waits := by
  unfold notify Job.waits
  cases state : job.state <;> simp [state]

@[simp] theorem Job.notify_outstanding : job.notify.outstanding = job.outstanding := by
  unfold notify Job.outstanding
  cases state : job.state <;> simp [state]

@[simp] theorem Job.notify_result : job.notify.result? = job.result? := by
  unfold notify result?
  cases state : job.state <;> simp [state]

theorem Job.notify_state : job.notify.state = job.state ∨
      (∃ notified, job.state = .reserving notified) ∧ job.notify.state = .reserving true := by
  unfold notify
  cases state : job.state with
  | reserving notified => exact Or.inr ⟨⟨notified, rfl⟩, rfl⟩
  | acquiring | running | finished => exact Or.inl state

end

variable (call : Call)

@[simp] theorem Call.notify_slots : call.notify.slots = call.slots := by
  unfold Call.slots Call.notify
  rw [countP_map]
  congr 1
  funext job
  exact job.notify_holds

@[simp] theorem Call.notify_gathered : call.notify.gathered = call.gathered := by
  unfold gathered Call.notify
  simp [all_map, Function.comp_def]

@[simp] theorem Call.notify_credit : call.notify.credit = call.credit := rfl

@[simp] theorem Call.notify_inGroup : call.notify.inGroup = call.inGroup := by
  unfold inGroup Call.notify
  cases phase : call.phase <;> rfl

theorem Call.notify_outstanding :
    call.notify.outstanding settings = call.outstanding settings := by
  unfold Call.outstanding Call.notify
  cases phase : call.phase <;> simp [flatMap_map] <;> rfl

theorem Gathering.notify {jobs : List Job} (gathering : Gathering jobs tickets) :
    Gathering (jobs.map notify) tickets where
  same := by
    rw [← gathering.same, map_map]
    congr 1
    funext job
    exact job.notify_ticket
  identity job mem result state := by
    obtain ⟨old, inside, rfl⟩ := mem_map.mp mem
    rcases old.notify_state with same | ⟨-, waits⟩
    · rw [Job.notify_ticket]
      exact gathering.identity old inside result (same ▸ state)
    · rw [waits] at state
      cases state

/-- A notice leaves every call where it is. -/
theorem Call.Sound.notify {call : Call} (sound : call.Sound settings) : call.notify.Sound settings where
  acceptable := sound.acceptable
  placed := by
    have placed := sound.placed
    unfold Call.Placed at placed
    unfold Call.Placed Call.notify
    cases phase : call.phase <;> simp only [phase] at placed ⊢
    case queued =>
      obtain ⟨jobs, results, admitted, waits⟩ := placed
      exact ⟨by rw [jobs]; rfl, results, admitted, waits⟩
    case collecting =>
      obtain ⟨waved, gathering, inside, waits, begun⟩ := placed
      refine ⟨waved, gathering.notify, inside, waits, ?_⟩
      intro job mem charged
      obtain ⟨old, there, rfl⟩ := mem_map.mp mem
      rw [Job.notify_ticket] at charged
      rw [Job.notify_waits]
      exact begun old there charged
    case waves => exact ⟨⟨placed.1.1, placed.1.2, placed.1.3, placed.1.4⟩, by rw [placed.2]; rfl⟩
    case reserving =>
      exact ⟨⟨placed.1.1, placed.1.2, placed.1.3, placed.1.4⟩, placed.2.1, by rw [placed.2.2]; rfl⟩
    case admitting =>
      obtain ⟨⟨waving, last⟩, jobs⟩ := placed
      exact ⟨⟨⟨waving.1, waving.2, waving.3, waving.4⟩, last⟩, by rw [jobs]; rfl⟩
    case running =>
      obtain ⟨⟨waving, last⟩, gathering, awake⟩ := placed
      refine ⟨⟨⟨waving.1, waving.2, waving.3, waving.4⟩, last⟩, gathering.notify, ?_⟩
      intro job mem notified
      obtain ⟨old, there, rfl⟩ := mem_map.mp mem
      rcases old.notify_state with same | ⟨⟨notified, waiting⟩, -⟩
      · rw [same]
        exact awake old there notified
      · exact absurd waiting (awake old there notified)
    case finishing =>
      obtain ⟨⟨waving, last⟩, gathering, all⟩ := placed
      exact ⟨⟨⟨waving.1, waving.2, waving.3, waving.4⟩, last⟩, gathering.notify,
        call.notify_gathered.trans all⟩
    case done =>
      obtain ⟨all, inside, consecutive, results⟩ := placed
      exact ⟨call.notify_gathered.trans all, inside, consecutive, results⟩

/-- `notify_all` keeps the books. -/
theorem Books.notify {pendingLimit pending workers groups : ℕ}
    {ledger : Ledger Ticket Account ℚ} {calls : List Call}
    (books : Books settings pendingLimit pending workers groups ledger calls) :
    Books settings pendingLimit pending workers groups ledger (calls.map Call.notify) where
  numbered index call there := by
    rw [getElem?_map] at there
    obtain ⟨old, found, rfl⟩ := Option.map_eq_some_iff.mp there
    exact books.numbered index old found
  sound call member := by
    obtain ⟨old, there, rfl⟩ := mem_map.mp member
    exact (books.sound old there).notify
  balanced := by
    rw [flatMap_map]
    simp only [notify_outstanding]
    exact books.balanced
  within := books.within
  history ticket charged := by
    obtain ⟨call, member, there⟩ := books.history ticket charged
    exact ⟨call.notify, mem_map_of_mem member, there⟩
  slotSum := by
    simpa [Function.comp_def] using books.slotSum
  groupSum := by
    simpa [Function.comp_def] using books.groupSum
  creditSum := by
    simpa [Function.comp_def] using books.creditSum
  creditLimit := books.creditLimit

end Notify

/-! ### One job -/

section Jobs

variable {settings : Settings} {call : Call} {position : ℕ} {job : Job}

theorem Gathering.set {jobs : List Job} (gathering : Gathering jobs tickets)
    (there : jobs[position]? = some job)
    (own : ∀ result, state = .finished result → result.identity = job.ticket.plan.identity) :
    Gathering (jobs.set position { job with state := state }) tickets where
  same := by
    obtain ⟨inside, rfl⟩ := List.getElem?_eq_some_iff.mp there
    rw [List.map_set, ← gathering.same]
    refine ext_getElem? fun index => ?_
    by_cases here : position = index
    · subst here
      simp [inside]
    · rw [getElem?_set_ne here]
  identity other mem result finished := by
    rcases mem_set mem with rfl | old
    · exact own result finished
    · exact gathering.identity other old result finished

theorem Call.Sound.working (sound : call.Sound settings)
    (there : call.jobs[position]? = some job) (busy : job.result? = none) :
    call.phase = .collecting ∨ ∃ offset, call.phase = .running offset := by
  have member := mem_of_getElem? there
  have all : call.gathered = false := by
    cases gathered : call.gathered with
    | false => rfl
    | true =>
      have finished := all_eq_true.mp gathered job member
      rw [busy] at finished
      cases finished
  have placed := sound.placed
  unfold Call.Placed at placed
  split at placed
  case h_1 => simp [placed.1] at member
  case h_2 phase => exact Or.inl phase
  case h_3 | h_5 => simp [placed.2] at member
  case h_4 => simp [placed.2.2] at member
  case h_6 offset phase => exact Or.inr ⟨offset, phase⟩
  case h_7 | h_8 => simp [all] at placed

/-- A job of a group without wave hooks goes on. -/
theorem Call.Sound.setJob_collecting (sound : call.Sound settings) (phase : call.phase = .collecting)
    (there : call.jobs[position]? = some job)
    (own : ∀ result, state = .finished result → result.identity = job.ticket.plan.identity)
    {admitted : List (List Ticket)}
    (shape : admitted = call.admitted ∧ ((⟨job.ticket, state⟩ : Job).waits = true → job.waits = true) ∨
      admitted = call.admitted ++ [[job.ticket]] ∧ state = .running) :
    Call.Sound settings { call with
      jobs := call.jobs.set position { job with state := state }
      admitted := admitted } := by
  refine ⟨sound.acceptable, ?_⟩
  have placed := sound.placed
  unfold Call.Placed at placed ⊢
  simp only [phase] at placed ⊢
  obtain ⟨waved, gathering, inside, open_, begun⟩ := placed
  have member := mem_of_getElem? there
  have own_ : job.ticket ∈ call.tickets := by
    rw [← gathering.same]
    exact mem_map_of_mem member
  refine ⟨waved, gathering.set there own, ?_, open_, ?_⟩
  · rcases shape with ⟨rfl, -⟩ | ⟨rfl, -⟩
    · exact inside
    · intro ticket charged
      rw [flatten_append, mem_append] at charged
      rcases charged with old | new
      · exact inside old
      · obtain rfl : ticket = job.ticket := by simpa using new
        exact own_
  · intro other there' charged
    obtain ⟨index, place⟩ := mem_iff_getElem?.mp there'
    rcases getElem?_set_cases place with ⟨-, rfl⟩ | ⟨elsewhere, old⟩
    · rcases shape with ⟨rfl, still⟩ | ⟨rfl, rfl⟩
      · by_contra waiting
        rw [not_eq_false] at waiting
        have before := begun job member charged
        rw [still waiting] at before
        cases before
      · rfl
    · refine begun other (mem_of_getElem? old) ?_
      rcases shape with ⟨rfl, -⟩ | ⟨rfl, -⟩
      · exact charged
      · rw [flatten_append, mem_append] at charged
        rcases charged with before | new
        · exact before
        · -- Another job has another ticket.
          have same : other.ticket = job.ticket := by simpa using new
          have distinct : (call.jobs.map (·.ticket)).Nodup := by
            rw [gathering.same]
            exact tickets_nodup call
          refine absurd ?_ elsewhere
          have first : (call.jobs.map (·.ticket))[index]? = some job.ticket := by
            rw [getElem?_map, old, Option.map_some, same]
          have second : (call.jobs.map (·.ticket))[position]? = some job.ticket := by
            rw [getElem?_map, there, Option.map_some]
          exact (getElem?_inj (List.getElem?_eq_some_iff.mp first).1 distinct).mp
            (first.trans second.symm)

theorem Call.Sound.setJob_running (sound : call.Sound settings) {offset : ℕ}
    (phase : call.phase = .running offset) (there : call.jobs[position]? = some job)
    (own : ∀ result, state = .finished result → result.identity = job.ticket.plan.identity)
    (awake : ∀ notified, state ≠ .reserving notified) :
    Call.Sound settings { call with
      jobs := call.jobs.set position { job with state := state } } := by
  refine ⟨sound.acceptable, ?_⟩
  have placed := sound.placed
  unfold Call.Placed at placed ⊢
  simp only [phase] at placed ⊢
  obtain ⟨⟨waving, last⟩, gathering, others⟩ := placed
  refine ⟨⟨⟨waving.1, waving.2, waving.3, waving.4⟩, last⟩, gathering.set there own, ?_⟩
  intro other mem notified
  rcases mem_set mem with rfl | old
  · exact awake notified
  · exact others other old notified

end Jobs

/-! ### Steps of a job -/

namespace Stream

variable {settings : Settings} {stream : Stream} {number position : ℕ} {call : Call} {job : Job}

/-- A job changes its state: the books follow its slot and what it has reserved. -/
theorem booked_setJob (books : stream.Booked settings) (found : stream.calls[number]? = some call)
    (there : call.jobs[position]? = some job) {state : JobState}
    {admitted : List (List Ticket)} {workers : ℕ} {ledger : Ledger Ticket Account ℚ}
    (sound : Call.Sound settings { call with
      jobs := call.jobs.set position { job with state := state }, admitted := admitted })
    (kept : call.admitted.flatten ⊆ admitted.flatten)
    (slots : workers + (if (⟨job.ticket, state⟩ : Job).holds then 1 else 0)
      = stream.workers + if job.holds then 1 else 0)
    (balanced : (call.phase = .collecting ∧ ∀ rest,
        Ledger.Balanced demand stream.ledger (job.outstanding ++ rest) →
        Ledger.Balanced demand ledger ((⟨job.ticket, state⟩ : Job).outstanding ++ rest)) ∨
      call.phase ≠ .collecting ∧ ledger = stream.ledger)
    (within : Ledger.Within settings.limit ledger)
    (history : ∀ ticket ∈ ledger.charged, ticket ∈ stream.ledger.charged ∨ ticket ∈ admitted.flatten) :
    Booked settings ({ stream with workers := workers, ledger := ledger }.put { call with
      jobs := call.jobs.set position { job with state := state }, admitted := admitted }) := by
  refine Books.replace books found rfl sound ?_ within history kept ?_ ?_ rfl books.creditLimit
  · intro rest before
    rcases balanced with ⟨phase, jobs⟩ | ⟨phase, rfl⟩
    · obtain ⟨others, old, new⟩ := flatMap_set Job.outstanding there
      have here : call.outstanding settings = call.jobs.flatMap Job.outstanding := by
        unfold Call.outstanding
        rw [phase]
      rw [here] at before
      have after := jobs (others ++ rest) (by
        rw [← append_assoc]
        exact before.perm (old.append_right rest))
      rw [← append_assoc] at after
      have next := after.perm ((new ⟨job.ticket, state⟩).symm.append_right rest)
      simp only [phase]
      exact next
    · unfold Call.outstanding at before ⊢
      cases place : call.phase <;> simp only [place] at before ⊢ <;> try exact before
      exact absurd place phase
  · have counts := countP_set Job.holds there { job with state := state }
    show workers + (call.jobs.set position { job with state := state }).countP Job.holds
      = stream.workers + call.jobs.countP Job.holds
    omega
  · rfl

/-- `execute` with its slot: the plan is refused, runs, or waits on the condition. -/
theorem booked_attempt (books : stream.Booked settings)
    (found : stream.calls[number]? = some call) (there : call.jobs[position]? = some job)
    (waits : job.waits = true) {workers : ℕ}
    (slot : workers + 1 = stream.workers + if job.holds then 1 else 0) :
    Booked settings ({ stream with workers := workers }.attempt settings call position job) := by
  have member := mem_of_getElem? found
  have sound := books.sound call member
  have idle : job.outstanding = [] ∧ job.result? = none := by
    unfold Job.waits at waits
    unfold Job.outstanding result?
    cases state : job.state <;> simp_all
  have place := sound.working there idle.2
  unfold attempt
  by_cases cancelled : stream.token.cancelled = true
  · rw [if_pos cancelled]
    have own : ∀ result, JobState.finished
        (notAdmitted job.ticket.plan "stream admission stopped") = .finished result →
        result.identity = job.ticket.plan.identity := by
      intro result same
      cases same
      rfl
    refine booked_setJob books found there ?_ (refl _) (by simpa [Job.holds] using slot) ?_
      books.within (fun _ charged => Or.inl charged)
    · rcases place with phase | ⟨offset, phase⟩
      · exact sound.setJob_collecting phase there own (Or.inl ⟨rfl, fun _ => waits⟩)
      · exact sound.setJob_running phase there own (nofun)
    · rcases place with phase | ⟨offset, phase⟩
      · refine Or.inl ⟨phase, fun rest before => ?_⟩
        rw [idle.1] at before
        exact before
      · exact Or.inr ⟨by simp [phase], rfl⟩
  · rw [if_neg cancelled]
    by_cases owned : call.owned = true
    · rw [if_pos owned]
      obtain ⟨offset, phase⟩ : ∃ offset, call.phase = .running offset := by
        rcases place with phase | running
        · simp [Call.owned, phase] at owned
        · exact running
      refine booked_setJob books found there
        (sound.setJob_running phase there (by simp) (by simp)) (refl _)
        (by simpa [Job.holds] using slot) (Or.inr ⟨by simp [phase], rfl⟩) books.within
        (fun _ charged => Or.inl charged)
    · rw [if_neg owned]
      have phase : call.phase = .collecting := by
        rcases place with phase | ⟨offset, phase⟩
        · exact phase
        · simp [Call.owned, phase] at owned
      by_cases fits : settings.fits stream.ledger.reserved job.ticket.plan.task.resources = true
      · rw [if_pos fits]
        have placed := sound.placed
        unfold Call.Placed at placed
        simp only [phase] at placed
        obtain ⟨-, gathering, -, -, begun⟩ := placed
        have inside := mem_of_getElem? there
        have own : job.ticket ∈ call.tickets := by
          rw [← gathering.same]
          exact mem_map_of_mem inside
        have fresh : job.ticket ∉ stream.ledger.charged := by
          refine Books.fresh books found (call_of_mem_tickets own) fun charged => ?_
          rw [begun job inside charged] at waits
          cases waits
        refine booked_setJob books found there
          (sound.setJob_collecting phase there (by simp) (Or.inr ⟨rfl, rfl⟩)) ?_
          (by simpa [Job.holds] using slot) (Or.inl ⟨phase, fun rest before => ?_⟩) ?_ ?_
        · rw [flatten_append]
          exact subset_append_left _ _
        · rw [idle.1] at before
          exact before.charge fresh
        · exact charge fun account bound limited =>
            fits_within fits books.within limited
        · intro ticket charged
          rcases mem_append.mp charged with old | new
          · exact Or.inl old
          · refine Or.inr ?_
            rw [mem_singleton.mp new, flatten_append]
            simp
      · rw [if_neg fits]
        refine booked_setJob books found there
          (sound.setJob_collecting phase there (by simp) (Or.inl ⟨rfl, fun _ => waits⟩))
          (refl _) (by simpa [Job.holds] using slot)
          (Or.inl ⟨phase, fun rest before => ?_⟩) books.within (fun _ charged => Or.inl charged)
        rw [idle.1] at before
        exact before

/-- A backend ends: its slot is free, and a plan without a wave is released or lost. -/
theorem booked_finish (books : stream.Booked settings) (found : stream.calls[number]? = some call)
    (there : call.jobs[position]? = some job) (running : job.state = .running)
    {result : EpisodeResult} (identity : result.identity = job.ticket.plan.identity) :
    (stream.finish call position job result).Booked settings := by
  have member := mem_of_getElem? found
  have sound := books.sound call member
  have place := sound.working there (by simp [result?, running])
  have own : ∀ other, JobState.finished result = .finished other →
      other.identity = job.ticket.plan.identity := by
    rintro other ⟨⟩
    exact identity
  have slot : stream.workers + 1 + (if (⟨job.ticket, .finished result⟩ : Job).holds then 1 else 0)
      = stream.workers + if job.holds then 1 else 0 := by
    simp [Job.holds, running]
  unfold finish
  refine Books.notify ?_
  rcases place with phase | ⟨offset, phase⟩
  · have native : call.owned = false := by simp [Call.owned, phase]
    have sound' := sound.setJob_collecting phase there own (Or.inl ⟨rfl, by simp [Job.waits]⟩)
    have here : job.outstanding = [job.ticket] := by simp [Job.outstanding, running]
    simp only [native, false_eq_true, if_false]
    by_cases safe : result.safe = true
    · rw [if_pos safe]
      refine booked_setJob books found there sound' (refl _) slot
        (Or.inl ⟨phase, fun rest before => ?_⟩) ?_ (fun _ charged => Or.inl charged)
      · rw [here] at before
        exact release before
      · exact books.within.release job.ticket.plan.task.resources.demand_nonneg
    · rw [if_neg safe]
      refine booked_setJob books found there sound' (refl _) slot
        (Or.inl ⟨phase, fun rest before => ?_⟩) (books.within.quarantine _)
        (fun _ charged => Or.inl charged)
      rw [here] at before
      exact quarantine before
  · have owned : call.owned = true := by simp [Call.owned, phase]
    simp only [owned, if_true]
    exact booked_setJob books found there (sound.setJob_running phase there own (by simp))
      (refl _) slot (Or.inr ⟨by simp [phase], rfl⟩) books.within
      (fun _ charged => Or.inl charged)

end Stream

/-! ### Steps of a call -/

theorem eraseDups_length_one {α : Type} [BEq α] [LawfulBEq α] {list : List α} (some_ : list ≠ [])
    (same : ∀ first ∈ list, ∀ second ∈ list, first = second) : list.eraseDups.length = 1 := by
  obtain ⟨first, rest, rfl⟩ := exists_cons_of_ne_nil some_
  have others : rest.filter (fun other => !other == first) = [] := by
    rw [filter_eq_nil_iff]
    intro other mem
    simp [same other (mem_cons_of_mem _ mem) first mem_cons_self]
  rw [eraseDups_cons, others]
  rfl

theorem Acceptable.oneBenchmark {settings : Settings} {plans : List EpisodePlan}
    (acceptable : Acceptable settings plans) :
    (plans.map (·.task.benchmark)).eraseDups.length = 1 := by
  refine eraseDups_length_one (by simpa using acceptable.nonempty) ?_
  intro first here second there
  obtain ⟨plan, mem, rfl⟩ := mem_map.mp here
  obtain ⟨other, member', rfl⟩ := mem_map.mp there
  have same := congrArg Prod.fst (acceptable.oneGroup plan mem other member')
  rw [← plan.agrees.1, ← other.agrees.1]
  exact same

theorem slots_of_gathered {call : Call} (gathered : call.gathered = true) : call.slots = 0 := by
  refine countP_eq_zero.mpr fun job mem => ?_
  have finished := all_eq_true.mp gathered job mem
  unfold result? at finished
  unfold Job.holds
  cases state : job.state <;> simp_all

theorem slots_of_idle {call : Call} (idle : call.jobs = []) : call.slots = 0 := by
  simp [Call.slots, idle]

theorem acquiring_idle (tickets : List Ticket) :
    (tickets.map fun ticket => (⟨ticket, .acquiring⟩ : Job)).countP Job.holds = 0 ∧
      (tickets.map fun ticket => (⟨ticket, .acquiring⟩ : Job)).flatMap Job.outstanding = [] ∧
      Gathering (tickets.map fun ticket => ⟨ticket, .acquiring⟩) tickets := by
  refine ⟨?_, ?_, ?_, ?_⟩
  · refine countP_eq_zero.mpr fun job mem => ?_
    obtain ⟨ticket, -, rfl⟩ := mem_map.mp mem
    simp [Job.holds]
  · refine flatMap_eq_nil_iff.mpr fun job mem => ?_
    obtain ⟨ticket, -, rfl⟩ := mem_map.mp mem
    rfl
  · simp [Function.comp_def]
  · intro job mem result state
    obtain ⟨ticket, -, rfl⟩ := mem_map.mp mem
    cases state

theorem observed_identities {call : Call} (gathering : Gathering call.jobs tickets)
    (gathered : call.gathered = true) :
    call.observed.map (·.identity) = (plansOf tickets).map (·.identity) := by
  have each : ∀ jobs : List Job, (∀ job ∈ jobs, job.result?.isSome = true) →
      (∀ job ∈ jobs, ∀ result, job.state = .finished result →
        result.identity = job.ticket.plan.identity) →
      (jobs.filterMap result?).map (·.identity)
        = (plansOf (jobs.map (·.ticket))).map (·.identity) := by
    intro jobs finished identity
    induction jobs with
    | nil => rfl
    | cons job rest ih =>
      obtain ⟨result, found⟩ := Option.isSome_iff_exists.mp (finished job mem_cons_self)
      have state : job.state = .finished result := by
        unfold result? at found
        split at found
        · cases found
          assumption
        · cases found
      have own := identity job mem_cons_self result state
      have others := ih (fun other mem => finished other (mem_cons_of_mem _ mem))
        fun other mem => identity other (mem_cons_of_mem _ mem)
      rw [filterMap_cons_some found, map_cons, own, others]
      rfl
  have all := each call.jobs (all_eq_true.mp gathered) gathering.identity
  rw [gathering.same] at all
  exact all

namespace Stream

variable {settings : Settings} {stream : Stream} {number offset : ℕ} {call : Call}

section

variable (books : stream.Booked settings)
include books

section

variable (found : stream.calls[number]? = some call)
include found

theorem booked_put (next : Call) (same : next.number = call.number) (sound : next.Sound settings)
    (slots : next.slots = call.slots) (inside : next.inGroup = call.inGroup)
    (owed : next.credit = call.credit) {ledger : Ledger Ticket Account ℚ}
    (balanced : ∀ rest, Ledger.Balanced demand stream.ledger (call.outstanding settings ++ rest)
      → Ledger.Balanced demand ledger (next.outstanding settings ++ rest))
    (within : Ledger.Within settings.limit ledger)
    (history : ∀ ticket ∈ ledger.charged, ticket ∈ stream.ledger.charged ∨ ticket ∈
      next.admitted.flatten) (kept : call.admitted.flatten ⊆ next.admitted.flatten) :
    Books settings stream.pendingLimit stream.pending stream.workers stream.groups ledger
      (stream.calls.set call.number next) :=
  Books.replace books found same sound balanced within history kept (by rw [slots])
    (by rw [inside]) (by rw [owed]) books.creditLimit

theorem booked_leave (inside : call.inGroup = true) (idle : call.outstanding settings = [])
    {outcome : Except String (List EpisodeResult)}
    (sound : Call.Sound settings { call with phase := .done outcome }) :
    (stream.leave call outcome).Booked settings := by
  refine Books.replace books found rfl sound ?_ books.within (fun _ charged => Or.inl charged)
    (refl _) rfl ?_ rfl books.creditLimit
  · intro rest before
    rw [idle] at before
    exact before
  · rw [inside]
    rfl

theorem booked_enterGroup (phase : call.phase = .queued) (free : 0 < stream.groups) :
    (stream.enterGroup settings call).Booked settings := by
  have sound := books.own found
  have placed := sound.placed
  unfold Call.Placed at placed
  simp only [phase] at placed
  obtain ⟨jobs, results, admitted, waits⟩ := placed
  have outside : call.inGroup = false := by simp [inGroup, phase]
  have idle : call.outstanding settings = [] := by simp [Call.outstanding, phase]
  unfold enterGroup
  simp only [sound.acceptable.oneBenchmark, ne_eq, not_true_eq_false, if_false]
  by_cases waved : call.waved settings = true
  · rw [if_pos waved]
    refine Books.replace books found rfl ⟨sound.acceptable, ⟨⟨waved, ?_, ?_, waits⟩, jobs⟩⟩ ?_
      books.within (fun _ charged => Or.inl charged) (refl _) rfl ?_ rfl
      books.creditLimit
    · rw [results]
      simp
    · rw [admitted]
      simp
    · intro rest before
      rw [idle] at before
      exact before
    · rw [outside]
      show stream.groups - 1 + 1 = stream.groups + 0
      omega
  · rw [if_neg waved]
    obtain ⟨holds, reserved, gathering⟩ := acquiring_idle call.tickets
    refine Books.replace books found rfl ⟨sound.acceptable, ?_⟩ ?_
      books.within (fun _ charged => Or.inl charged) (refl _) ?_ ?_ rfl
      books.creditLimit
    · refine ⟨eq_false_iff.mpr waved, gathering, ?_, waits, ?_⟩
      · show call.admitted.flatten ⊆ call.tickets
        rw [admitted]
        simp
      · intro job _ charged
        rw [admitted] at charged
        cases charged
    · intro rest before
      rw [idle] at before
      show Ledger.Balanced _ _ (flatMap Job.outstanding _ ++ rest)
      rw [show ((({ call with phase := .collecting } : Call).collect call.tickets).jobs).flatMap
        Job.outstanding = [] from reserved]
      exact before
    · rw [slots_of_idle jobs]
      show stream.workers + countP Job.holds _ = stream.workers + 0
      rw [show ((({ call with phase := .collecting } : Call).collect call.tickets).jobs).countP
        Job.holds = 0 from holds]
    · rw [outside]
      show stream.groups - 1 + 1 = stream.groups + 0
      omega

/-- A wave that does not wait any longer is charged; the others wait. -/
theorem booked_reserveWave
    (phase : call.phase = .waves offset ∨ ∃ notified, call.phase = .reserving offset notified)
    (waving : Waving settings call offset offset) (more : offset < call.plans.length)
    (jobs : call.jobs = []) : (stream.reserveWave settings call offset).Booked settings := by
  have sound := books.own found
  have inside : call.inGroup = true := by
    rcases phase with phase | ⟨_, phase⟩ <;> simp [inGroup, phase]
  have idle : call.outstanding settings = [] := by
    rcases phase with phase | ⟨_, phase⟩ <;> simp [Call.outstanding, phase]
  unfold reserveWave
  by_cases cancelled : stream.token.cancelled = true
  · rw [if_pos cancelled]
    refine booked_put books found { call with phase := .waves offset } rfl
      ⟨sound.acceptable, ⟨waving.1, waving.2, waving.3, waving.4⟩, jobs⟩ rfl inside.symm rfl ?_
      books.within (fun _ charged => Or.inl charged) (refl _)
    intro rest before
    rw [idle] at before
    exact before
  · rw [if_neg cancelled]
    by_cases fits : settings.waveFits stream.ledger.reserved
        (plansOf (call.selected settings offset)) = true
    · rw [if_pos fits]
      have ahead : call.admitted.flatten ++ call.tickets.drop offset = call.tickets :=
        waving.flatten sound.acceptable
      have distinct := tickets_nodup call
      rw [← ahead] at distinct
      obtain ⟨-, laterNodup, apart⟩ := nodup_append.mp distinct
      have chosen := selected_begins settings call offset
      refine booked_put books found { call with
          phase := .admitting offset
          admitted := call.admitted ++ [call.selected settings offset] } rfl
        ⟨sound.acceptable, ⟨⟨waving.1, waving.2, ?_, waving.4⟩, getLast?_concat⟩, jobs⟩ rfl
        inside.symm rfl ?_ ?_ ?_ ?_
      · show (call.admitted ++ [call.selected settings offset]) ++ waves settings (call.tickets.drop
            (offset + (call.selected settings offset).length)) = waves settings call.tickets
        rw [append_assoc, singleton_append, ← waves_drop sound.acceptable more]
        exact waving.charged
      · intro rest before
        rw [idle] at before
        refine chargeAll before (laterNodup.sublist chosen.sublist) ?_
        intro ticket mem
        refine Books.fresh books found (call_of_mem_tickets (mem_selected mem)) fun charged => ?_
        exact apart ticket charged ticket (chosen.subset mem) rfl
      · refine chargeAll fun account bound limited => ?_
        have bounded := waveFits_within fits books.within limited
        unfold totals plansOf at bounded
        rw [map_map] at bounded
        exact bounded
      · intro ticket charged
        change ticket ∈ ((call.selected settings offset).foldl (Ledger.charge demand)
          stream.ledger).charged at charged
        rw [(Ledger.history_chargeAll _ _).1] at charged
        rcases mem_append.mp charged with old | new
        · exact Or.inl old
        · refine Or.inr ?_
          rw [flatten_append, mem_append]
          exact Or.inr (by simpa using new)
      · rw [flatten_append]
        exact subset_append_left _ _
    · rw [if_neg fits]
      refine booked_put books found { call with phase := .reserving offset false } rfl
        ⟨sound.acceptable, ⟨waving.1, waving.2, waving.3, waving.4⟩, more, jobs⟩ rfl inside.symm
        rfl ?_ books.within (fun _ charged => Or.inl charged) (refl _)
      intro rest before
      rw [idle] at before
      exact before

theorem booked_nextWave (phase : call.phase = .waves offset) :
    (stream.nextWave settings call offset).Booked settings := by
  have sound := books.own found
  have placed := sound.placed
  unfold Call.Placed at placed
  simp only [phase] at placed
  obtain ⟨waving, jobs⟩ := placed
  have inside : call.inGroup = true := by simp [inGroup, phase]
  have idle : call.outstanding settings = [] := by simp [Call.outstanding, phase]
  have consecutive : call.admitted <+: waves settings call.tickets := ⟨_, waving.charged⟩
  have leaves : ∀ results : List EpisodeResult, results.map (·.identity) = call.identities →
      (stream.leave call (.ok results)).Booked settings := by
    intro results same
    refine booked_leave books found inside idle
      ⟨sound.acceptable, ?_, sound.admitted_subset, fun _ => consecutive, results, rfl, same⟩
    simp [gathered, jobs]
  unfold nextWave
  by_cases last : call.plans.length ≤ offset
  · rw [if_pos last]
    refine leaves _ ?_
    rw [waving.results]
    exact take_of_length_le (by simpa [identities] using last)
  · rw [if_neg last]
    by_cases cancelled : stream.token.cancelled = true
    · rw [if_pos cancelled]
      refine leaves _ ?_
      rw [map_append, waving.results, map_map]
      rw [map_drop]
      exact take_append_drop offset call.identities
    · rw [if_neg cancelled, if_neg (selected_ne_nil sound.acceptable (not_le.mp last))]
      exact booked_reserveWave books found (Or.inl phase) waving (not_le.mp last) jobs

/-- The end of a wave gives all of it back or loses all of it. -/
theorem booked_settleWave
    (waving : Waving settings call offset (offset + (call.selected settings offset).length))
    (inside : call.inGroup = true) (slots : call.slots = 0)
    (reserved : call.outstanding settings = call.selected settings offset)
    {observed : List EpisodeResult}
    (identities : observed.map (·.identity) = (plansOf (call.selected settings offset)).map
      (·.identity)) (closure : Option Mapping) :
    (stream.settleWave settings call offset observed closure).Booked settings := by
  have sound := books.own found
  have settled : ∀ results : List EpisodeResult, results.map (·.identity) = observed.map (·.identity) →
      Call.Sound settings { call with
        phase := .waves (offset + (call.selected settings offset).length)
        jobs := []
        results := call.results ++ results } := by
    intro results same
    refine ⟨sound.acceptable, ⟨waving.waved, ?_, waving.charged, waving.waits⟩, rfl⟩
    show (call.results ++ results).map (·.identity) = call.identities.take _
    rw [map_append, waving.results, same, identities, identities_selected, take_add]
  unfold settleWave
  by_cases safe : (observed.all safe && !requestUncertain closure) = true
  · simp only [safe, if_true]
    refine Books.notify (booked_put books found { call with
        phase := .waves (offset + (call.selected settings offset).length)
        jobs := []
        results := call.results ++ observed } rfl (settled observed rfl) slots.symm inside.symm rfl
      ?_ ?_ ?_ (refl _))
    · intro rest before
      rw [reserved] at before
      exact before.releaseAll
    · exact books.within.releaseAll fun ticket => ticket.plan.task.resources.demand_nonneg
    · intro ticket charged
      change ticket ∈ ((call.selected settings offset).foldl (Ledger.release demand)
        stream.ledger).charged at charged
      rw [(Ledger.history_releaseAll _ _).1] at charged
      exact Or.inl charged
  · simp only [safe, false_eq_true, if_false]
    refine Books.notify (booked_put books found { call with
        phase := .waves (offset + (call.selected settings offset).length)
        jobs := []
        results := call.results ++ observed.map (unclosed closure) } rfl
      (settled _ (by simp [unclosed, Function.comp_def])) slots.symm inside.symm rfl
      ?_ (books.within.quarantineAll _) ?_ (refl _))
    · intro rest before
      rw [reserved] at before
      exact before.quarantineAll
    · intro ticket charged
      change ticket ∈ ((call.selected settings offset).foldl (Ledger.quarantine demand)
        stream.ledger).charged at charged
      rw [Ledger.history_quarantineAll] at charged
      exact Or.inl charged

theorem booked_afterAdmit (phase : call.phase = .admitting offset) (outcome : HookOutcome) :
    (stream.afterAdmit settings call offset outcome).Booked settings := by
  have sound := books.own found
  have placed := sound.placed
  unfold Call.Placed at placed
  simp only [phase] at placed
  obtain ⟨⟨waving, last⟩, jobs⟩ := placed
  have inside : call.inGroup = true := by simp [inGroup, phase]
  have reserved : call.outstanding settings = call.selected settings offset := by
    simp [Call.outstanding, phase]
  have failed : ∀ failure : HookOutcome,
      ((stream.cancelToken "stream_group_admission_failure").settleWave settings call offset
        ((plansOf (call.selected settings offset)).map fun plan =>
          unresolved plan ("group admission: " ++ failure.errorType))
        (Run.closureOf failure)).Booked settings := by
    intro failure
    have untouched : (stream.cancelToken "stream_group_admission_failure").Booked settings := books
    refine booked_settleWave untouched found waving inside (slots_of_idle jobs) reserved ?_ _
    rw [map_map]
    rfl
  cases outcome with
  | returned closure =>
    obtain ⟨holds, -, gathering⟩ := acquiring_idle (call.selected settings offset)
    refine booked_put books found
      (({ call with phase := .running offset } : Call).collect (call.selected settings offset)) rfl
      ⟨sound.acceptable, ⟨⟨waving.1, waving.2, waving.3, waving.4⟩, last⟩, gathering, ?_⟩ ?_ inside.symm
      rfl ?_ books.within (fun _ charged => Or.inl charged) (refl _)
    · intro job mem notified
      obtain ⟨ticket, -, rfl⟩ := mem_map.mp mem
      simp
    · rw [slots_of_idle jobs]
      exact holds
    · intro rest before
      rw [reserved] at before
      exact before
  | raised text => exact failed (.raised text)
  | cancelled => exact failed .cancelled

end

theorem booked_step {action : StreamAction} {next : Stream}
    (stepped : stream.step settings action = some next) : next.Booked settings := by
  cases step_moves stepped with
  | submit =>
    rename_i plans sequence
    rcases submit_cases settings stream plans sequence with
      ⟨owners, same⟩ | ⟨acceptable, credit, owners, runId, same⟩
    · rw [same]
      exact books
    · rw [same]
      refine ⟨?_, ?_, ?_, books.within, ?_, ?_, ?_, ?_, credit⟩
      · intro index call there
        rw [getElem?_append] at there
        split_ifs at there with old
        · exact books.numbered index call there
        · rw [getElem?_singleton] at there
          split_ifs at there with zero
          cases there
          show stream.calls.length = index
          omega
      · intro call mem
        rcases mem_append.mp mem with old | new
        · exact books.sound call old
        · obtain rfl := mem_singleton.mp new
          exact ⟨acceptable, rfl, rfl, rfl, rfl⟩
      · simpa [Call.outstanding] using books.balanced
      · intro ticket charged
        obtain ⟨call, mem, there⟩ := books.history ticket charged
        exact ⟨call, mem_append_left _ mem, there⟩
      · simpa [Call.slots] using books.slotSum
      · simpa [inGroup] using books.groupSum
      · have sum := books.creditSum
        simp [Call.credit]
        omega
  | enter found phase free => exact booked_enterGroup books found phase free
  | collected found phase gathered =>
    rename_i number call
    have sound := books.own found
    have placed := sound.placed
    unfold Call.Placed at placed
    simp only [phase] at placed
    obtain ⟨waved, gathering, inside, -, -⟩ := placed
    refine booked_leave books found (by simp [inGroup, phase]) ?_
      ⟨sound.acceptable, gathered, inside, ?_, _, rfl, ?_⟩
    · unfold Call.outstanding
      simp only [phase]
      refine flatMap_eq_nil_iff.mpr fun job mem => ?_
      have finished := all_eq_true.mp gathered job mem
      unfold result? at finished
      unfold Job.outstanding
      cases state : job.state <;> simp_all
    · intro wrong
      change call.waved settings = true at wrong
      rw [waved] at wrong
      cases wrong
    · rw [observed_identities gathering gathered, plansOf_tickets]
      rfl
  | next found phase => exact booked_nextWave books found phase
  | reserve found phase =>
    rename_i number offset call
    have placed := (books.sound call (mem_of_getElem? found)).placed
    unfold Call.Placed at placed
    simp only [phase] at placed
    exact booked_reserveWave books found (Or.inr ⟨true, phase⟩) placed.1 placed.2.1 placed.2.2
  | gathered found phase gathered =>
    rename_i number offset call
    have sound := books.own found
    have placed := sound.placed
    unfold Call.Placed at placed
    simp only [phase] at placed
    obtain ⟨⟨waving, last⟩, gathering, -⟩ := placed
    refine booked_put books found { call with phase := .finishing offset } rfl
      ⟨sound.acceptable, ⟨⟨waving.1, waving.2, waving.3, waving.4⟩, last⟩, gathering, gathered⟩
      rfl ?_ rfl ?_ books.within (fun _ charged => Or.inl charged) (refl _)
    · simp [inGroup, phase]
    · intro rest before
      simp only [Call.outstanding, phase] at before
      exact before
  | returned found phase waits =>
    rename_i number call outcome
    have sound := books.own found
    have placed := sound.placed
    unfold Call.Placed at placed
    simp only [phase] at placed
    have owed : call.credit = call.plans.length := by simp [Call.credit, waits]
    have sums := sum_set Call.credit found { call with returned := true }
    have free : ({ call with returned := true } : Call).credit = 0 := rfl
    have total := books.creditSum
    refine Books.replace books found rfl ⟨sound.acceptable, ?_⟩ ?_ books.within
      (fun _ charged => Or.inl charged) (refl _) rfl ?_ ?_ ?_
    · simp only [phase]
      exact placed
    · intro rest before
      exact before
    · rfl
    · show stream.pending - call.plans.length + call.credit = stream.pending + 0
      omega
    · exact (Nat.sub_le _ _).trans books.creditLimit
  | admitted found phase => exact booked_afterAdmit books found phase _
  | closed found phase =>
    rename_i number offset call outcome
    have sound := books.own found
    have placed := sound.placed
    unfold Call.Placed at placed
    simp only [phase] at placed
    obtain ⟨waving, gathering, gathered⟩ := placed
    exact booked_settleWave books found waving.toWaving (by simp [inGroup, phase])
      (slots_of_gathered gathered) (by simp [Call.outstanding, phase])
      (observed_identities gathering gathered) _
  | acquire found there state free =>
    refine booked_attempt books found there (by simp [Job.waits, state]) ?_
    simp only [Job.holds, state, false_eq_true, if_false]
    omega
  | retry found there state =>
    exact booked_attempt books found there (by simp [Job.waits, state]) (by simp [Job.holds, state])
  | complete found there state =>
    exact booked_finish books found there state (execute_identity _ _)
  | interrupt | cancel | resume | close => exact books
  | pause => exact Books.notify books

end

end Stream

/-! ### Runs -/

section

variable {settings : Settings} {pendingLimit : ℕ} {stream : Stream}
  (reached : (streamSystem settings pendingLimit).Reachable always stream)
include reached

theorem pendingLimit_run : stream.pendingLimit = pendingLimit := by
  refine reached.invariant (fun state => state.pendingLimit = pendingLimit) ?_ ?_
  · rintro start ⟨token, rfl⟩
    rfl
  · rintro before action after - stepped rfl
    exact Stream.step_pendingLimit stepped

theorem booked_run : stream.Booked settings := by
  refine reached.invariant (Stream.Booked settings) ?_ fun _ _ _ _ stepped books =>
    Stream.booked_step books stepped
  rintro start ⟨token, rfl⟩
  refine ⟨?_, ?_, empty, ?_, ?_, rfl, rfl, rfl, Nat.zero_le _⟩
  · intro index call there
    cases there
  · intro call mem
    cases mem
  · intro account bound limited
    obtain ⟨capacity, -, rfl⟩ := limit_eq limited
    exact capacity.amount_nonneg account.2
  · intro ticket charged
    cases charged

end

section

variable {settings : Settings} {call : Call} (sound : call.Sound settings)
include sound

theorem Call.Sound.returned (returned : call.returned = true) :
    ∃ results, call.phase = .done (.ok results) ∧
      results.map (·.identity) = call.plans.map (·.identity) := by
  have placed := sound.placed
  unfold Call.Placed at placed
  split at placed
  case h_1 => simp [placed.2.2.2] at returned
  case h_2 => simp [placed.2.2.2.1] at returned
  case h_3 | h_4 | h_5 | h_6 | h_7 => simp [placed.1.waits] at returned
  case h_8 outcome phase =>
    obtain ⟨-, -, -, results, rfl, same⟩ := placed
    exact ⟨results, phase, same⟩

theorem Call.Sound.consecutive (waved : call.waved settings = true) :
    call.admitted <+: waves settings call.tickets ∧ ∀ job ∈ call.jobs, job.state = .running →
        ∃ wave, call.admitted.getLast? = some wave ∧ job.ticket ∈ wave := by
  have placed := sound.placed
  unfold Call.Placed at placed
  split at placed
  case h_1 => simp [placed.1, placed.2.2.1]
  case h_2 => simp [waved] at placed
  case h_3 | h_5 => exact ⟨⟨_, placed.1.charged⟩, by simp [placed.2]⟩
  case h_4 => exact ⟨⟨_, placed.1.charged⟩, by simp [placed.2.2]⟩
  case h_6 | h_7 =>
    obtain ⟨charged, gathering, -⟩ := placed
    refine ⟨⟨_, charged.charged⟩, fun job mem _ => ⟨_, charged.last, ?_⟩⟩
    rw [← gathering.same]
    exact mem_map_of_mem mem
  case h_8 =>
    obtain ⟨gathered, -, consecutive, -⟩ := placed
    refine ⟨consecutive waved, fun job mem running => ?_⟩
    have finished := all_eq_true.mp gathered job mem
    simp [result?, running] at finished

end

/-- Whatever the calls of a stream do, a call that has returned gave one result for each plan, in the
order of the plans; a wave group is admitted as consecutive waves, each of which fits the workers and
the executors, and only plans of its last wave run; the credit taken is that of the calls that have not
returned; and what is reserved is what outstanding plans and quarantined ones ask for, within every
capacity. -/
theorem stream_accounts (settings : Settings) (pendingLimit : ℕ) (stream : Stream)
    (reached : (streamSystem settings pendingLimit).Reachable always stream) :
    (∀ call ∈ stream.calls, (∀ message, call.phase ≠ .done (.error message)) ∧
      (call.returned = true → ∃ results, call.phase = .done (.ok results) ∧
        results.map (·.identity) = call.plans.map (·.identity)) ∧
      (call.waved settings = true → call.admitted <+: waves settings call.tickets ∧
        (waves settings call.tickets).flatten = call.tickets ∧
        (∀ wave ∈ call.admitted, wave ≠ [] ∧ wave.length ≤ settings.maxWorkers ∧
          settings.fitsCapacity (plansOf wave) = true) ∧
        ∀ job ∈ call.jobs, job.state = .running →
          ∃ wave, call.admitted.getLast? = some wave ∧ job.ticket ∈ wave)) ∧
    stream.pending = (stream.calls.map Call.credit).sum ∧ stream.pending ≤ pendingLimit ∧
    (∀ account, stream.ledger.reserved account
      = Ledger.total demand (stream.calls.flatMap (Call.outstanding settings)) account
        + stream.ledger.quarantined account) ∧
    (∀ account bound, settings.limit account = some bound → stream.ledger.reserved account ≤ bound) := by
  have limit : stream.pendingLimit = pendingLimit := pendingLimit_run reached
  have books := booked_run reached
  refine ⟨fun call member => ⟨?_, (books.sound call member).returned, fun waved => ?_⟩,
    books.creditSum, limit ▸ books.creditLimit, fun account => ?_, books.within⟩
  · intro message phase
    have placed := (books.sound call member).placed
    unfold Call.Placed at placed
    simp only [phase] at placed
    obtain ⟨-, -, -, results, wrong, -⟩ := placed
    cases wrong
  · have sound := books.sound call member
    obtain ⟨consecutive, running⟩ := sound.consecutive waved
    exact ⟨consecutive, waves_flatten (tickets_validated sound.acceptable),
      fun wave inside => waves_fit settings _ wave (consecutive.subset inside), running⟩
  · rw [books.balanced.reserved, books.balanced.quarantined]

/-! ### Two backends -/

/-- A sample of a group on a backend with wave hooks. -/
def terminalPlan (sampleIndex : ℕ) : EpisodePlan where
  identity := ⟨"run", .terminalBench, "task", "waves", sampleIndex, 0, none, none⟩
  task := ⟨.terminalBench, "task", "source", oneCpu⟩
  agrees := ⟨rfl, rfl⟩

/-- A backend without wave hooks and one with them share one worker and one CPU. -/
def mixed : Settings where
  backends benchmark :=
    if benchmark = .kernelbench then some ⟨0, false⟩
    else if benchmark = .terminalBench then some ⟨1, true⟩ else none
  maxWorkers := 1
  maxGroups := 2
  capacities executor := if executor = "local" then some oneCpu else none
  drainTimeout := 1
  policy := .nativeGroups
  maxWorkers_pos := Nat.one_pos
  maxGroups_pos := Nat.two_pos
  drainTimeout_pos := rat_one_pos
  waves := native_two

/-- Two waves of one plan; the hook of the second raises. -/
def lostWave : List StreamAction :=
  [.submit [terminalPlan 0, terminalPlan 1] 0, .advance 0, .advance 0, .hook 0 (.returned none),
    .work 0 0, .complete 0 0 (.returned (completed (terminalPlan 0) "verified")), .advance 0,
    .hook 0 (.returned none), .advance 0, .hook 0 (.raised "OSError"), .advance 0, .advance 0]

theorem stream_accounts_lost : ∃ stream, (streamSystem mixed 2).Reachable always stream ∧
      stream.ledger.quarantined ("local", .cpu) = 1 ∧ stream.pending = 0 ∧
      ∀ call ∈ stream.calls, ∃ results, call.phase = .done (.ok results) ∧
        results.map (·.identity) = call.plans.map (·.identity) := by
  have executed : ((streamSystem mixed 2).run always (Stream.opened mixed 2 .fresh)
      lostWave).map (fun stream => (stream.ledger.quarantined ("local", .cpu), stream.pending,
        stream.calls.map (·.returned))) = some (1, 0, [true]) := by
    decide +kernel
  obtain ⟨stream, finish, same⟩ := Option.map_eq_some_iff.mp executed
  simp only [Prod.mk.injEq] at same
  obtain ⟨lost, pending, returned⟩ := same
  have reached : (streamSystem mixed 2).Reachable always stream :=
    reachable_of_run ⟨_, rfl⟩ finish
  refine ⟨stream, reached, lost, pending, fun call member => ?_⟩
  have ended : call.returned = true := by
    have inside := mem_map_of_mem (f := Call.returned) member
    rw [returned] at inside
    simpa using inside
  exact ((stream_accounts mixed 2 stream reached).1 call member).2.1 ended

end TinyDSV41.Coordinator
