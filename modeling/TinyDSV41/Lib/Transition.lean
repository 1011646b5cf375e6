/-
**Transition systems with an executable step.**

A system is a set of initial states and a partial step function; every choice of the environment
(scheduling, failures, answers of other parties) is an explicit action. A *guard* restricts the
actions a run may take in a state, so that a theorem about the runs of a certain kind is a theorem
about the guarded system.

* `Reachable.invariant` — what holds initially and is kept by every guarded step holds in every
  reachable state.
* `Leads.preserves` — the same along a path between two states.
* `reachable_of_run` — an executed action list gives a reachable state.
* `eventually_stutters` — a weight that never grows and a rank that drops in between leave an infinite
  path only its stutters.
-/

import Mathlib.Order.WellFounded
import Mathlib.Data.List.Basic

namespace TinyDSV41.Lib

/-- A transition system: initial states and an executable step under explicit actions. -/
structure System (State Action : Type) where
  initial : State → Prop
  step : State → Action → Option State

namespace System

variable {State Action : Type} (system : System State Action)
variable (guard : State → Action → Prop)

/-- One step by an action the guard admits. -/
def Step (before after : State) : Prop :=
  ∃ action, guard before action ∧ system.step before action = some after

def Leads : State → State → Prop := Relation.ReflTransGen (system.Step guard)

variable (state : State)

/-- The states that some run from an initial state reaches. -/
def Reachable (state : State) : Prop :=
  ∃ start, system.initial start ∧ system.Leads guard start state

def always (_ : State) (_ : Action) : Prop := True

instance decidableAlways (state : State) (action : Action) : Decidable (always state action) :=
  isTrue trivial

/-- A list of actions, executed one after the other as long as the guard admits them. -/
def run [∀ state action, Decidable (guard state action)] (state : State) (actions : List Action) :
    Option State :=
  actions.foldlM (fun current action =>
    if guard current action then system.step current action else none) state

variable {system guard}

theorem Leads.refl : system.Leads guard state state := Relation.ReflTransGen.refl

theorem Leads.trans {first second third : State} (one : system.Leads guard first second)
    (two : system.Leads guard second third) : system.Leads guard first third :=
  Relation.ReflTransGen.trans one two

theorem Leads.single {before after : State} {action : Action} (admitted : guard before action)
    (stepped : system.step before action = some after) : system.Leads guard before after :=
  Relation.ReflTransGen.single ⟨action, admitted, stepped⟩

theorem Leads.preserves (property : State → Prop)
    (kept : ∀ state action next, guard state action → system.step state action = some next →
      property state → property next) (path : system.Leads guard start finish) (holds : property start) :
    property finish := by
  induction path with
  | refl => exact holds
  | tail _ last known =>
    obtain ⟨action, admitted, stepped⟩ := last
    exact kept _ action _ admitted stepped known

theorem Leads.mono
    (implied : ∀ state action, guard state action → weaker state action)
    (path : system.Leads guard start finish) : system.Leads weaker start finish := by
  induction path with
  | refl => exact Leads.refl _
  | tail _ last known =>
    obtain ⟨action, admitted, stepped⟩ := last
    exact known.trans (Relation.ReflTransGen.single ⟨action, implied _ action admitted, stepped⟩)

theorem Reachable.mono
    (implied : ∀ state action, guard state action → weaker state action) {state : State}
    (reached : system.Reachable guard state) : system.Reachable weaker state := by
  obtain ⟨start, initial, path⟩ := reached
  exact ⟨start, initial, path.mono implied⟩

theorem Reachable.leads {state finish : State} (reached : system.Reachable guard state)
    (path : system.Leads guard state finish) : system.Reachable guard finish := by
  obtain ⟨start, initial, before⟩ := reached
  exact ⟨start, initial, before.trans path⟩

theorem Reachable.step {state next : State} {action : Action}
    (reached : system.Reachable guard state) (admitted : guard state action)
    (stepped : system.step state action = some next) : system.Reachable guard next :=
  reached.leads (Leads.single admitted stepped)

theorem Reachable.invariant (property : State → Prop)
    (holds : ∀ state, system.initial state → property state)
    (kept : ∀ state action next, guard state action → system.step state action = some next →
      property state → property next)
    {state : State} (reached : system.Reachable guard state) : property state := by
  obtain ⟨start, initial, path⟩ := reached
  exact path.preserves property kept (holds start initial)

theorem run_cons [∀ state action, Decidable (guard state action)] (action : Action)
    (rest : List Action) :
    system.run guard state (action :: rest)
      = (if guard state action then system.step state action else none).bind
          (system.run guard · rest) := by
  rfl

theorem leads_of_run [∀ state action, Decidable (guard state action)] {actions : List Action} (executed : system.run guard start actions = some finish) :
    system.Leads guard start finish := by
  induction actions generalizing start with
  | nil =>
    cases executed
    exact Leads.refl _
  | cons action rest known =>
    rw [run_cons] at executed
    obtain ⟨next, stepped, remaining⟩ := Option.bind_eq_some_iff.mp executed
    split_ifs at stepped with admitted
    exact Relation.ReflTransGen.head ⟨action, admitted, stepped⟩ (known remaining)

theorem reachable_of_run [∀ state action, Decidable (guard state action)] {actions : List Action} (initial : system.initial start)
    (executed : system.run guard start actions = some finish) : system.Reachable guard finish :=
  ⟨start, initial, leads_of_run executed⟩

/-- Along an infinite path on which a weight never grows and, while it stays, a rank drops unless the
step stutters, the weight is constant from some point on and a step beyond it stutters. -/
theorem eventually_stutters (path : ℕ → State) (weight rank : State → ℕ) (stutters : ℕ → Prop)
    (moves : ∀ index, weight (path (index + 1)) < weight (path index) ∨
      weight (path (index + 1)) = weight (path index) ∧
        (rank (path (index + 1)) < rank (path index) ∨ stutters index)) :
    ∃ start, (∀ index, start ≤ index → weight (path index) = weight (path start)) ∧
      ∃ index, start ≤ index ∧ stutters index := by
  -- The point where the weight is least.
  obtain ⟨start, least⟩ : ∃ start, ∀ index, weight (path start) ≤ weight (path index) := by
    obtain ⟨-, ⟨start, rfl⟩, minimal⟩ := wellFounded_lt.has_min
      (Set.range fun index => weight (path index)) ⟨_, 0, rfl⟩
    exact ⟨start, fun index => not_lt.mp (minimal _ ⟨index, rfl⟩)⟩
  have constant : ∀ extra, weight (path (start + extra)) = weight (path start) := by
    intro extra
    induction extra with
    | zero => rfl
    | succ extra known =>
      have below := least (start + (extra + 1))
      rcases moves (start + extra) with drops | ⟨stays, -⟩
      · rw [← Nat.add_assoc] at below
        omega
      · rw [← Nat.add_assoc, stays, known]
  refine ⟨start, fun index later => ?_, ?_⟩
  · obtain ⟨extra, rfl⟩ := Nat.exists_eq_add_of_le later
    exact constant extra
  · by_contra never
    -- Without a stutter the rank would drop for ever.
    have falling : ∀ extra, rank (path (start + extra)) + extra ≤ rank (path start) := by
      intro extra
      induction extra with
      | zero => simp
      | succ extra known =>
        rcases moves (start + extra) with drops | ⟨-, lower | stutter⟩
        · have next := constant (extra + 1)
          have here := constant extra
          rw [← Nat.add_assoc] at next
          omega
        · rw [← Nat.add_assoc start]
          omega
        · exact absurd ⟨start + extra, Nat.le_add_right _ _, stutter⟩ never
    have := falling (rank (path start) + 1)
    omega

end System

end TinyDSV41.Lib
