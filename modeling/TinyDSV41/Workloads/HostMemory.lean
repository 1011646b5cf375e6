/-
**Admission to the memory of the host.**

`ByteBudget` lends bytes in the order of the requests. Everything it does happens under one condition; a turn of
the loop of `acquire` keeps nothing from the turn before, so it is a step of its own, and the threads may take
their steps in any order. Requests are numbered as they are queued.

* `ByteBudget.Sound` — the invariant, which every step keeps (`sound_step`).
* `byte_budget` — what holds in every state that is reached.
* `failed_call_spares` — when a call of `evaluator_memory` that fails leaves what others have queued.
-/

import TinyDSV41.Lib.OrderedTable
import TinyDSV41.Lib.Transition

namespace TinyDSV41.Workloads

open List Lib OrderedTable

variable {Key : Type} [DecidableEq Key]

/-! ### The budget -/

/-- An entry of `waiting`, with the number of the request. -/
structure MemoryRequest (Key : Type) where
  serial : ℕ
  key : Key
  size : ℕ
deriving DecidableEq

inductive AllocationState
  | admitted
  | quarantined
deriving DecidableEq

structure Allocation where
  bytes : ℕ
  state : AllocationState
deriving DecidableEq

/-- A `ByteBudget`. `issued` counts the requests; `granted` and `withdrawn` are the numbers of those that were
admitted and cancelled, in this order. -/
structure ByteBudget (Key : Type) [DecidableEq Key] where
  capacity : ℕ
  waiting : List (MemoryRequest Key)
  allocations : OrderedTable Key Allocation
  issued : ℕ
  granted : List ℕ
  withdrawn : List ℕ

/-- How a turn of the loop of `acquire` ends. -/
inductive Turn
  | admitted
  | cancelled
  | waits
deriving DecidableEq

namespace ByteBudget

def fresh (capacity : ℕ) : ByteBudget Key := ⟨capacity, [], ∅, 0, [], []⟩

variable (budget : ByteBudget Key)

def used : ℕ := budget.allocations.total Allocation.bytes

def enqueue (key : Key) (size : ℤ) : Except String (ByteBudget Key) :=
  if ¬ (0 < size ∧ size ≤ budget.capacity) then .error "one allocation cannot fit the memory budget"
  else if (budget.allocations.get? key).isSome = true ∨ ∃ request ∈ budget.waiting, request.key = key then
    .error "duplicate memory reservation key"
  else .ok { budget with
    waiting := budget.waiting ++ [⟨budget.issued, key, size.toNat⟩]
    issued := budget.issued + 1 }

def cancel (key : Key) : ByteBudget Key := { budget with
  waiting := budget.waiting.filter fun request => request.key ≠ key
  withdrawn := budget.withdrawn ++ (budget.waiting.filter fun request => request.key = key).map MemoryRequest.serial }

/-- A turn of the loop of `acquire`; `cancelled` is what the caller's function returns. -/
def acquire (key : Key) (cancelled : Bool) : Turn × ByteBudget Key :=
  if cancelled then (.cancelled, budget.cancel key)
  else
    match budget.waiting.find? fun request => request.key = key with
    | none => (.cancelled, budget)
    | some entry =>
      if budget.waiting.head? = some entry ∧ budget.used + entry.size ≤ budget.capacity then
        (.admitted, { budget with
          waiting := budget.waiting.tail
          allocations := budget.allocations.push key ⟨entry.size, .admitted⟩
          granted := budget.granted ++ [entry.serial] })
      else (.waits, budget)

/-- `quarantine`; none where it raises. -/
def quarantine (key : Key) : Option (ByteBudget Key) :=
  (budget.allocations.get? key).map fun _ => { budget with
    allocations := budget.allocations.modify key fun allocation => { allocation with state := .quarantined } }

def release (key : Key) : ByteBudget Key :=
  { budget with allocations := budget.allocations.remove key }.cancel key

end ByteBudget

inductive BudgetAction (Key : Type)
  | enqueue (key : Key) (size : ℤ)
  | acquire (key : Key) (cancelled : Bool)
  | cancel (key : Key)
  | quarantine (key : Key)
  | release (key : Key)

/-- A call of any thread; one that raises leaves the budget. -/
def ByteBudget.step (budget : ByteBudget Key) : BudgetAction Key → ByteBudget Key
  | .enqueue key size => (budget.enqueue key size).toOption.getD budget
  | .acquire key cancelled => (budget.acquire key cancelled).2
  | .cancel key => budget.cancel key
  | .quarantine key => (budget.quarantine key).getD budget
  | .release key => budget.release key

def budgetSystem (capacity : ℕ) : System (ByteBudget Key) (BudgetAction Key) where
  initial budget := budget = .fresh capacity
  step budget action := some (budget.step action)

/-- No caller releases a quarantined key. -/
def keepsQuarantine (budget : ByteBudget Key) : BudgetAction Key → Prop
  | .release key => ∀ bytes, budget.allocations.get? key ≠ some ⟨bytes, .quarantined⟩
  | _ => True

/-! ### The invariant -/

/-- Who waits has no allocation and stands in the order of the numbers, behind all that were admitted; and every
number is accounted for. -/
structure ByteBudget.Sound (capacity : ℕ) (budget : ByteBudget Key) : Prop where
  room : budget.capacity = capacity
  keys : (budget.waiting.map MemoryRequest.key).Nodup
  apart : ∀ request ∈ budget.waiting, budget.allocations.get? request.key = none
  bound : budget.used ≤ capacity
  queued : (budget.waiting.map MemoryRequest.serial).Pairwise (· < ·)
  known : ∀ request ∈ budget.waiting, request.serial < budget.issued
  ordered : budget.granted.Pairwise (· < ·)
  ahead : ∀ serial ∈ budget.granted, ∀ request ∈ budget.waiting, serial < request.serial
  counted : ∀ serial < budget.issued, serial ∈ budget.granted ∨ serial ∈ budget.withdrawn ∨
    serial ∈ budget.waiting.map MemoryRequest.serial
  past : ∀ serial ∈ budget.granted, serial < budget.issued

namespace ByteBudget

variable {budget : ByteBudget Key} {key : Key}

theorem Sound.fresh (capacity : ℕ) : Sound capacity (fresh capacity : ByteBudget Key) :=
  ⟨rfl, nodup_nil, nofun, Nat.zero_le _, .nil, nofun, .nil, nofun, nofun, nofun⟩

variable {capacity : ℕ} (sound : budget.Sound capacity)
include sound

theorem Sound.enqueue {size : ℤ} {next : ByteBudget Key} (ran : budget.enqueue key size = .ok next) :
    next.Sound capacity := by
  unfold ByteBudget.enqueue at ran
  split_ifs at ran with fits taken
  cases ran
  obtain ⟨free, new⟩ := not_or.mp taken
  have absent : budget.allocations.get? key = none := by simpa using free
  have behind : ∀ request ∈ budget.waiting, request.key ≠ key := fun request mem same => new ⟨request, mem, same⟩
  refine ⟨sound.room, ?_, ?_, sound.bound, ?_, ?_, sound.ordered, ?_, ?_, fun serial mem => ?_⟩
  · simp only [map_append, map_cons, map_nil, nodup_append]
    refine ⟨sound.keys, nodup_singleton _, ?_⟩
    simpa using behind
  · simpa [or_imp, forall_and] using ⟨sound.apart, absent⟩
  · simp only [map_append, map_cons, map_nil, pairwise_append]
    refine ⟨sound.queued, pairwise_singleton _ _, ?_⟩
    simpa using sound.known
  · intro request mem
    rcases mem_append.mp mem with old | new
    · exact Nat.lt_succ_of_lt (sound.known request old)
    · rw [mem_singleton.mp new]
      exact Nat.lt_succ_self _
  · intro serial granted request mem
    rcases mem_append.mp mem with old | new
    · exact sound.ahead serial granted request old
    · rw [mem_singleton.mp new]
      exact sound.past serial granted
  · intro serial within
    rw [map_append, mem_append]
    rcases Nat.lt_succ_iff_lt_or_eq.mp within with old | rfl
    · exact (sound.counted serial old).imp_right (Or.imp_right Or.inl)
    · exact Or.inr (Or.inr (Or.inr (mem_singleton.mpr rfl)))
  · exact Nat.lt_succ_of_lt (sound.past serial mem)

theorem Sound.cancel (key : Key) : (budget.cancel key).Sound capacity := by
  have sub : (budget.waiting.filter fun request => request.key ≠ key).Sublist budget.waiting := filter_sublist
  refine ⟨sound.room, sound.keys.sublist (sub.map _), fun request mem => sound.apart request (sub.subset mem), sound.bound,
    sound.queued.sublist (sub.map _), fun request mem => sound.known request (sub.subset mem), sound.ordered,
    fun serial granted request mem => sound.ahead serial granted request (sub.subset mem), ?_, sound.past⟩
  intro serial within
  rcases sound.counted serial within with granted | withdrawn | waits
  · exact Or.inl granted
  · exact Or.inr (Or.inl (mem_append_left _ withdrawn))
  · obtain ⟨request, mem, rfl⟩ := mem_map.mp waits
    by_cases own : request.key = key
    · refine Or.inr (Or.inl (mem_append_right _ (mem_map_of_mem ?_)))
      exact mem_filter.mpr ⟨mem, decide_eq_true own⟩
    · exact Or.inr (Or.inr (mem_map_of_mem (mem_filter.mpr ⟨mem, decide_eq_true own⟩)))

omit sound in
/-- The first that waits is admitted as soon as it fits. -/
theorem acquire_head {request : MemoryRequest Key} {rest : List (MemoryRequest Key)}
    (first : budget.waiting = request :: rest) (fits : budget.used + request.size ≤ budget.capacity) :
    budget.acquire request.key false = (.admitted, { budget with
      waiting := rest
      allocations := budget.allocations.push request.key ⟨request.size, .admitted⟩
      granted := budget.granted ++ [request.serial] }) := by
  unfold acquire
  rw [if_neg Bool.false_ne_true, first, find?_cons_of_pos (by simp)]
  exact if_pos ⟨rfl, fits⟩

omit sound in
theorem acquire_cases (budget : ByteBudget Key) (key : Key) (cancelled : Bool) :
    cancelled = true ∧ budget.acquire key cancelled = (.cancelled, budget.cancel key) ∨
    cancelled = false ∧ (budget.acquire key cancelled = (.cancelled, budget) ∨
      budget.acquire key cancelled = (.waits, budget) ∨
      ∃ request rest, budget.waiting = request :: rest ∧ request.key = key ∧
        budget.used + request.size ≤ budget.capacity) := by
  unfold acquire
  cases cancelled with
  | true => exact Or.inl ⟨rfl, rfl⟩
  | false =>
    refine Or.inr ⟨rfl, ?_⟩
    cases found : budget.waiting.find? fun request => request.key = key with
    | none => exact Or.inl rfl
    | some entry =>
      dsimp only
      by_cases first : budget.waiting.head? = some entry ∧ budget.used + entry.size ≤ budget.capacity
      · obtain ⟨rest, same⟩ := head?_eq_some_iff.mp first.1
        exact Or.inr (Or.inr ⟨entry, rest, same, by simpa using find?_some found, first.2⟩)
      · rw [if_neg first]
        exact Or.inr (Or.inl rfl)

theorem Sound.acquire (key : Key) (cancelled : Bool) : (budget.acquire key cancelled).2.Sound capacity := by
  rcases acquire_cases budget key cancelled with
    ⟨-, same⟩ | ⟨rfl, same | same | ⟨request, rest, first, rfl, fits⟩⟩
  · rw [same]
    exact sound.cancel key
  · rw [same]
    exact sound
  · rw [same]
    exact sound
  rw [acquire_head first fits]
  obtain ⟨room, keys, apart, -, queued, known, ordered, ahead, counted, past⟩ := sound
  rw [first] at keys apart queued known ahead counted
  obtain ⟨new, keys⟩ := nodup_cons.mp keys
  obtain ⟨before, queued⟩ := pairwise_cons.mp queued
  obtain ⟨absent, apart⟩ := forall_mem_cons.mp apart
  refine ⟨room, keys, fun other mem => ?_, ?_, queued, fun other mem => known other (mem_cons_of_mem _ mem),
    ?_, fun serial granted other mem => ?_, fun serial within => ?_, fun serial granted => ?_⟩
  · have differs : other.key ≠ request.key := fun same => new (same ▸ mem_map_of_mem mem)
    exact (get?_push_ne differs).trans (apart other mem)
  · exact (total_push absent).trans_le (fits.trans_eq room)
  · rw [pairwise_append]
    refine ⟨ordered, pairwise_singleton _ _, fun serial granted other here => ?_⟩
    rw [mem_singleton.mp here]
    exact ahead serial granted request mem_cons_self
  · rcases mem_append.mp granted with old | here
    · exact ahead serial old other (mem_cons_of_mem _ mem)
    · rw [mem_singleton.mp here]
      exact before _ (mem_map_of_mem mem)
  · rcases counted serial within with granted | withdrawn | waits
    · exact Or.inl (mem_append_left _ granted)
    · exact Or.inr (Or.inl withdrawn)
    · rcases mem_cons.mp waits with rfl | later
      · exact Or.inl (mem_append_right _ (mem_singleton.mpr rfl))
      · exact Or.inr (Or.inr later)
  · rcases mem_append.mp granted with old | here
    · exact past serial old
    · rw [mem_singleton.mp here]
      exact known request mem_cons_self

theorem Sound.step (action : BudgetAction Key) : (budget.step action).Sound capacity := by
  cases action with
  | enqueue key size =>
    show ((budget.enqueue key size).toOption.getD budget).Sound capacity
    cases ran : budget.enqueue key size with
    | error => exact sound
    | ok next => exact sound.enqueue ran
  | acquire key cancelled => exact sound.acquire key cancelled
  | cancel key => exact sound.cancel key
  | quarantine key =>
    show ((budget.quarantine key).getD budget).Sound capacity
    unfold quarantine
    cases found : budget.allocations.get? key with
    | none => exact sound
    | some allocation =>
      refine { sound with apart := fun request mem => ?_, bound := ?_ }
      · exact (get?_modify_ne fun same => by
          cases found.symm.trans (same ▸ sound.apart request mem)).trans (sound.apart request mem)
      · have same : (budget.allocations.modify key fun allocation => { allocation with state := .quarantined }).total
            Allocation.bytes = budget.used := total_modify_same fun _ => rfl
        exact same.trans_le sound.bound
  | release key =>
    have kept : ({ budget with allocations := budget.allocations.remove key } : ByteBudget Key).Sound capacity := by
      refine { sound with apart := fun request mem => ?_, bound := ?_ }
      · rw [get?_remove, sound.apart request mem, ite_self]
      · exact total_remove_le.trans sound.bound
    exact kept.cancel key

/-- A quarantined allocation stays where it is. -/
theorem Sound.quarantined {bytes : ℕ} {action : BudgetAction Key} (lends : keepsQuarantine budget action)
    (held : budget.allocations.get? key = some ⟨bytes, .quarantined⟩) :
    (budget.step action).allocations.get? key = some ⟨bytes, .quarantined⟩ := by
  cases action with
  | enqueue other size =>
    show ((budget.enqueue other size).toOption.getD budget).allocations.get? key = _
    unfold ByteBudget.enqueue
    split_ifs <;> exact held
  | acquire other cancelled =>
    show (budget.acquire other cancelled).2.allocations.get? key = _
    rcases acquire_cases budget other cancelled with
      ⟨-, same⟩ | ⟨rfl, same | same | ⟨request, rest, first, rfl, fits⟩⟩
    rotate_right
    · rw [acquire_head first fits]
      refine (get?_push_ne fun same => ?_).trans held
      cases (same ▸ held).symm.trans (sound.apart request (first ▸ mem_cons_self))
    all_goals
      rw [same]
      exact held
  | cancel other => exact held
  | quarantine other =>
    show ((budget.quarantine other).getD budget).allocations.get? key = _
    unfold quarantine
    cases found : budget.allocations.get? other with
    | none => exact held
    | some allocation =>
      show (budget.allocations.modify other _).get? key = _
      rw [get?_modify, held]
      split_ifs <;> rfl
  | release other =>
    show (budget.allocations.remove other).get? key = _
    rw [get?_remove_ne]
    · exact held
    · rintro rfl
      exact lends bytes held

end ByteBudget

open ByteBudget in
/-- **The memory of the host**, in every state that the calls of any threads reach: nobody both waits and holds an
allocation, the bytes fit, the requests are admitted in their order but for those that were withdrawn, what is
quarantined stays so, and a turn of the first that waits admits it if it fits. -/
theorem byte_budget {capacity : ℕ} {budget : ByteBudget Key}
    (reached : (budgetSystem capacity).Reachable keepsQuarantine budget) :
    ((budget.waiting.map MemoryRequest.key).Nodup ∧ (budget.allocations.items.map Prod.fst).Nodup ∧
      ∀ request ∈ budget.waiting, budget.allocations.get? request.key = none) ∧
    budget.used ≤ capacity ∧
    (budget.granted.Pairwise (· < ·) ∧ ∀ serial ∈ budget.granted, ∀ earlier < serial,
      earlier ∈ budget.granted ∨ earlier ∈ budget.withdrawn) ∧
    (∀ key bytes later, budget.allocations.get? key = some ⟨bytes, .quarantined⟩ →
      (budgetSystem capacity).Leads keepsQuarantine budget later →
        later.allocations.get? key = some ⟨bytes, .quarantined⟩) ∧
    ∀ request rest, budget.waiting = request :: rest → budget.used + request.size ≤ budget.capacity →
      ∀ cancelled, budget.acquire request.key cancelled =
        if cancelled then (.cancelled, budget.cancel request.key)
        else (.admitted, { budget with
          waiting := rest
          allocations := budget.allocations.push request.key ⟨request.size, .admitted⟩
          granted := budget.granted ++ [request.serial] }) := by
  have sound : budget.Sound capacity := by
    refine reached.invariant (Sound capacity) ?_ ?_
    · rintro _ rfl
      exact .fresh capacity
    · rintro state action next - stepped sound
      cases stepped
      exact sound.step action
  refine ⟨⟨sound.keys, budget.allocations.distinct, sound.apart⟩, sound.bound, ⟨sound.ordered, ?_⟩, ?_, ?_⟩
  · intro serial granted earlier before
    rcases sound.counted earlier (before.trans (sound.past serial granted)) with admitted | withdrawn | waits
    · exact Or.inl admitted
    · exact Or.inr withdrawn
    · obtain ⟨request, member, rfl⟩ := mem_map.mp waits
      exact absurd (sound.ahead serial granted request member) before.not_gt
  · intro key bytes later held path
    refine (path.preserves (fun state => state.Sound capacity ∧ state.allocations.get? key = some ⟨bytes, .quarantined⟩) ?_
      ⟨sound, held⟩).2
    rintro state action next lends stepped ⟨sound, held⟩
    cases stepped
    exact ⟨sound.step action, sound.quarantined lends held⟩
  · intro request rest first fits cancelled
    cases cancelled with
    | true => rfl
    | false => exact acquire_head first fits

open ByteBudget in
/-- Of two requests that do not fit together the first is admitted. -/
theorem byte_budget_pair : ∃ budget : ByteBudget String,
    (budgetSystem 10).Reachable keepsQuarantine budget ∧ budget.granted = [0] ∧ budget.used ≤ 10 := by
  have start : (budgetSystem 10).Reachable keepsQuarantine (fresh 10 : ByteBudget String) :=
    ⟨_, rfl, System.Leads.refl _⟩
  have one : (budgetSystem 10).Reachable keepsQuarantine ((fresh 10).step (.enqueue "a" 7)) :=
    start.step (by trivial) rfl
  have two : (budgetSystem 10).Reachable keepsQuarantine (((fresh 10).step (.enqueue "a" 7)).step (.enqueue "b" 5)) :=
    one.step (by trivial) rfl
  have admitted : (budgetSystem 10).Reachable keepsQuarantine
      ((((fresh 10).step (.enqueue "a" 7)).step (.enqueue "b" 5)).step (.acquire "a" false)) :=
    two.step (by trivial) rfl
  exact ⟨_, admitted, rfl, (byte_budget admitted).2.1⟩

/-! ### `evaluator_memory` -/

/-- Where a call of `evaluator_memory` stands, with the number of its request. -/
inductive EvaluatorPlace
  | entering
  | queued (own : ℕ)
  | raising (own : Option ℕ)
  | raised (own : Option ℕ)
  | admitted (own : ℕ)

def EvaluatorPlace.own : EvaluatorPlace → Option ℕ
  | .entering => none
  | .queued own | .admitted own => some own
  | .raising own | .raised own => own

variable (key : Key) (size : ℤ)

/-- A step of a call of `evaluator_memory` up to its `yield`: `enqueue`, a turn of `acquire`, or the `except`
clause. -/
def evaluatorMemory (cancelled : Bool) (budget : ByteBudget Key) :
    EvaluatorPlace → Option (EvaluatorPlace × ByteBudget Key)
  | .entering => some <|
    match budget.enqueue key size with
    | .ok next => (.queued budget.issued, next)
    | .error _ => (.raising none, budget)
  | .queued own => some <|
    match budget.acquire key cancelled with
    | (.admitted, next) => (.admitted own, next)
    | (.cancelled, next) => (.raising (some own), next)
    | (.waits, next) => (.queued own, next)
  | .raising own => some (.raised own, budget.cancel key)
  | _ => none

/-- The steps of a call that fails before it is admitted, each with what `cancelled` returns and the budget that it
finds, which other callers may have changed in any way since the step before. -/
inductive FailedCall : EvaluatorPlace → List (EvaluatorPlace × Bool × ByteBudget Key) → Prop
  | raised (own : Option ℕ) : FailedCall (.raised own) []
  | step {place next : EvaluatorPlace} {cancelled : Bool} {budget after : ByteBudget Key}
      {steps : List (EvaluatorPlace × Bool × ByteBudget Key)}
      (ran : evaluatorMemory key size cancelled budget place = some (next, after)) (rest : FailedCall next steps) :
      FailedCall place ((place, cancelled, budget) :: steps)

/-- What belongs to other callers: the entries besides one's own, and the allocations. -/
def others (own : Option ℕ) (budget : ByteBudget Key) : List (MemoryRequest Key) × OrderedTable Key Allocation :=
  (budget.waiting.filter fun request => some request.serial ≠ own, budget.allocations)

/-- The step calls `cancel`. -/
def withdraws : EvaluatorPlace → Bool → Bool
  | .queued _, cancelled => cancelled
  | .raising _, _ => true
  | _, _ => false

/-- Nobody else waits under the key. -/
def Alone (own : Option ℕ) (budget : ByteBudget Key) : Prop :=
  ∀ request ∈ budget.waiting, request.key = key → some request.serial = own

variable {key size}

theorem others_cancel {own : Option ℕ} {budget : ByteBudget Key} :
    others own (budget.cancel key) = others own budget ↔ Alone key own budget := by
  unfold others ByteBudget.cancel Alone
  rw [Prod.mk.injEq, and_iff_left rfl, filter_filter]
  constructor
  · intro same request mem named
    by_contra differs
    have inside : request ∈ budget.waiting.filter fun request => some request.serial ≠ own :=
      mem_filter.mpr ⟨mem, decide_eq_true differs⟩
    rw [← same] at inside
    simpa [named] using (mem_filter.mp inside).2
  · intro alone
    refine filter_congr fun request mem => ?_
    by_cases named : request.key = key
    · simp [alone request mem named]
    · simp [named]

/-- A step leaves what belongs to others, unless it withdraws the key while someone else waits under it. -/
theorem evaluatorMemory_spares {cancelled : Bool} {budget after : ByteBudget Key} {place next : EvaluatorPlace}
    (ran : evaluatorMemory key size cancelled budget place = some (next, after))
    (fails : ∀ own, next ≠ .admitted own) : others next.own after = others next.own budget ↔
      (withdraws place cancelled = true → Alone key place.own budget) := by
  cases place with
  | entering =>
    unfold evaluatorMemory ByteBudget.enqueue at ran
    refine iff_of_true ?_ nofun
    split_ifs at ran <;> cases ran <;> simp [others, EvaluatorPlace.own]
  | queued own =>
    unfold evaluatorMemory at ran
    rcases ByteBudget.acquire_cases budget key cancelled with
      ⟨rfl, same⟩ | ⟨rfl, same | same | ⟨request, rest, first, rfl, fits⟩⟩
    · cases ran
      exact others_cancel.trans ⟨fun alone _ => alone, fun alone => alone rfl⟩
    · rw [same] at ran
      cases ran
      exact iff_of_true rfl nofun
    · rw [same] at ran
      cases ran
      exact iff_of_true rfl nofun
    · rw [ByteBudget.acquire_head first fits] at ran
      cases ran
      exact absurd rfl (fails own)
  | raising own =>
    cases ran
    exact others_cancel.trans ⟨fun alone _ => alone, fun alone => alone rfl⟩
  | raised | admitted => cases ran

/-- Every step of a call that fails is taken, and none admits it. -/
theorem FailedCall.taken {place : EvaluatorPlace} {steps : List (EvaluatorPlace × Bool × ByteBudget Key)}
    (failed : FailedCall key size place steps) : ∀ step ∈ steps, ∃ next after,
      evaluatorMemory key size step.2.1 step.2.2 step.1 = some (next, after) ∧ ∀ own, next ≠ .admitted own := by
  induction failed with
  | raised => exact nofun
  | step ran rest known =>
    refine forall_mem_cons.mpr ⟨⟨_, _, ran, fun own same => ?_⟩, known⟩
    subst same
    cases rest with
    | step ran _ => cases ran

/-- **A call that fails** leaves the entries and the allocations of all other callers, at each of its steps, exactly
if nobody else waits under its key whenever it withdraws the key. -/
theorem failed_call_spares {steps : List (EvaluatorPlace × Bool × ByteBudget Key)}
    (failed : FailedCall key size .entering steps) :
    (∀ step ∈ steps, ∀ next after, evaluatorMemory key size step.2.1 step.2.2 step.1 = some (next, after) →
      others next.own after = others next.own step.2.2) ↔
    ∀ step ∈ steps, withdraws step.1 step.2.1 = true → Alone key step.1.own step.2.2 := by
  refine forall_congr' fun step => forall_congr' fun member => ?_
  obtain ⟨next, after, ran, fails⟩ := failed.taken step member
  rw [← evaluatorMemory_spares ran fails]
  refine ⟨fun all => all next after ran, fun spared other later again => ?_⟩
  cases ran.symm.trans again
  exact spared

/-- Another caller waits under the key; the call is refused for it, and takes the entry away. -/
theorem duplicate_call_withdraws : ∃ (budget : ByteBudget String) (request : MemoryRequest String),
    budget.waiting = [request] ∧ FailedCall "job/evaluation" 7 .entering
      [(.entering, false, budget), (.raising none, false, budget)] ∧
    (evaluatorMemory "job/evaluation" 7 false budget (.raising none)).map (fun ended => ended.2.waiting) = some [] :=
  ⟨⟨10, [⟨0, "job/evaluation", 7⟩], ∅, 1, [], []⟩, _, rfl, .step rfl (.step rfl (.raised none)), rfl⟩

/-- Another caller waits, and a third one has memory. -/
def busyBudget : ByteBudget String :=
  ⟨10, [⟨1, "other/final", 7⟩], (∅ : OrderedTable String Allocation).push "third/final" ⟨8, .admitted⟩, 2, [0], []⟩

/-- A call that asks for too much, with nobody else under its key. -/
theorem large_call_spares :
    FailedCall "job/final" 11 .entering [(.entering, false, busyBudget), (.raising none, false, busyBudget)] ∧
    ∀ step ∈ [(EvaluatorPlace.entering, false, busyBudget), (.raising none, false, busyBudget)], ∀ next after,
      evaluatorMemory "job/final" 11 step.2.1 step.2.2 step.1 = some (next, after) →
        others next.own after = others next.own step.2.2 := by
  have failed : FailedCall "job/final" 11 .entering
      [(.entering, false, busyBudget), (.raising none, false, busyBudget)] :=
    .step rfl (.step rfl (.raised none))
  have alone : Alone "job/final" none busyBudget := by
    unfold Alone
    decide
  refine ⟨failed, (failed_call_spares failed).mpr fun step member _ => ?_⟩
  rcases mem_cons.mp member with rfl | member
  · exact alone
  · cases mem_singleton.mp member
    exact alone

end TinyDSV41.Workloads
