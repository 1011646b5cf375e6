/-
**Programs whose operations may fail.**

A program reads and changes a state. Each of its operations may fail, then the rest does not run and
the state stays as it was left. The environment chooses the operation that fails; without such a choice
an operation fails only where it is not defined.

* `Prog` — programs, with `operate`, `change`, `fail` and `attempt`.
* `Triple` — what holds after a program that returned, and after one that failed.
* `Triple.bind`, `Triple.operate`, `Triple.attempt` — one rule for each way to build a program.
-/

import Mathlib.Order.Basic

namespace TinyDSV41.Lib

/-- How many operations succeed before one fails; `none` if none fails. -/
abbrev Faults := Option ℕ

/-- A program: what it returns, the faults that are left, and the state it leaves. -/
def Prog (State Value : Type) := Faults → State → Except String Value × Faults × State

namespace Prog

variable {State Value Other : Type}

def done (value : Value) : Prog State Value := fun faults state => (.ok value, faults, state)

def andThen (first : Prog State Value) (second : Value → Prog State Other) : Prog State Other :=
  fun faults state =>
    match first faults state with
    | (.ok value, left, next) => second value left next
    | (.error error, left, next) => (.error error, left, next)

instance : Monad (Prog State) where
  pure := done
  bind := andThen

theorem run_bind {program : Prog State Value} {second : Value → Prog State Other} {faults : Faults}
    {state : State} : (program >>= second) faults state =
      match program faults state with
      | (.ok value, left, next) => second value left next
      | (.error error, left, next) => (.error error, left, next) := rfl

def fail (error : String) : Prog State Value := fun faults state => (.error error, faults, state)

def change (update : State → State) : Prog State Unit := fun faults state => (.ok (), faults, update state)

def look (view : State → Value) : Prog State Value := fun faults state => (.ok (view state), faults, state)

/-- An operation; `none` where it is not defined. -/
def operate (run : State → Option (Value × State)) : Prog State Value := fun faults state =>
  match faults, run state with
  | some 0, _ => (.error "failed", some 0, state)
  | _, none => (.error "not defined", faults, state)
  | some (left + 1), some (value, next) => (.ok value, some left, next)
  | none, some (value, next) => (.ok value, none, next)

/-- `try: …  except Exception: …; raise` -/
def attempt (program : Prog State Value) (handler : State → State) : Prog State Value :=
  fun faults state =>
    match program faults state with
    | (.ok value, left, next) => (.ok value, left, next)
    | (.error error, left, next) => (.error error, left, handler next)

/-- `try: …  finally: …` -/
def ensure (program : Prog State Value) (last : State → State) : Prog State Value :=
  fun faults state =>
    match program faults state with
    | (result, left, next) => (result, left, last next)

/-- `if …:` without an `else`. -/
def when (condition : Prop) [Decidable condition] (program : Prog State Unit) : Prog State Unit :=
  if condition then program else done ()

end Prog

open Prog

variable {State Value Other : Type}

/-- After a program. If `calm`, it fails only because the environment lets an operation fail. -/
def Triple (calm : Prop) (before : State → Prop) (program : Prog State Value)
    (after : Value → State → Prop) (failed : State → Prop) : Prop :=
  ∀ faults state, before state →
    match program faults state with
    | (.ok value, left, next) => after value next ∧ (faults = none → left = none)
    | (.error _, _, next) => failed next ∧ (calm → faults ≠ none)

namespace Triple

variable {calm : Prop} {before : State → Prop} {program : Prog State Value}
  {after : Value → State → Prop} {failed : State → Prop}
variable {after' : Value → State → Prop}

theorem weaken {before' : State → Prop} {failed' : State → Prop}
    (triple : Triple calm before program after failed) (implied : ∀ state, before' state → before state)
    (returned : ∀ value state, after value state → after' value state)
    (raised : ∀ state, failed state → failed' state) : Triple calm before' program after' failed' := by
  intro faults state holds
  have known := triple faults state (implied state holds)
  split at known
  · exact ⟨returned _ _ known.1, known.2⟩
  · exact ⟨raised _ known.1, known.2⟩

theorem imp (triple : Triple calm before program after failed)
    (returned : ∀ value state, after value state → after' value state) :
    Triple calm before program after' failed :=
  triple.weaken (fun _ known => known) returned fun _ raised => raised

theorem pure {value : Value} (holds : ∀ state, before state → after value state) :
    Triple calm before (pure value : Prog State Value) after failed :=
  fun _ state known => ⟨holds state known, fun same => same⟩

variable {between : Value → State → Prop}

theorem bind {next : Value → Prog State Other} {last : Other → State → Prop}
    (first : Triple calm before program between failed)
    (second : ∀ value, Triple calm (between value) (next value) last failed) :
    Triple calm before (program >>= next) last failed := by
  intro faults state holds
  have known := first faults state holds
  rw [run_bind]
  rcases ran : program faults state with ⟨error | value, left, middle⟩
  all_goals rw [ran] at known
  · exact known
  · have later := second value left middle known.1
    dsimp only
    rcases ran' : next value left middle with ⟨error | result, rest, finish⟩
    all_goals rw [ran'] at later
    · exact ⟨later.1, fun quiet same => later.2 quiet (known.2 same)⟩
    · exact ⟨later.1, fun same => later.2 (known.2 same)⟩

theorem fail {error : String} (holds : ∀ state, before state → failed state ∧ ¬ calm) :
    Triple calm before (fail error : Prog State Value) after failed :=
  fun _ state known => ⟨(holds state known).1, fun quiet => absurd quiet (holds state known).2⟩

theorem change {update : State → State} {after : Unit → State → Prop}
    (holds : ∀ state, before state → after () (update state)) :
    Triple calm before (change update) after failed :=
  fun _ state known => ⟨holds state known, fun same => same⟩

theorem look {view : State → Value} (holds : ∀ state, before state → after (view state) state) :
    Triple calm before (look view) after failed :=
  fun _ state known => ⟨holds state known, fun same => same⟩

theorem operate {run : State → Option (Value × State)}
    (holds : ∀ state, before state → failed state ∧ (calm → ∃ result, run state = some result) ∧
      ∀ value next, run state = some (value, next) → after value next) :
    Triple calm before (Prog.operate run) after failed := by
  intro faults state known
  obtain ⟨raised, defined, returned⟩ := holds state known
  unfold Prog.operate
  rcases faults with _ | left | left
  · rcases found : run state with _ | ⟨value, next⟩
    · refine ⟨raised, fun quiet => ?_⟩
      obtain ⟨result, there⟩ := defined quiet
      rw [found] at there
      cases there
    · exact ⟨returned value next found, fun same => same⟩
  · exact ⟨raised, nofun⟩
  · rcases found : run state with _ | ⟨value, next⟩
    · exact ⟨raised, nofun⟩
    · exact ⟨returned value next found, nofun⟩

theorem attempt {handler : State → State} {raised : State → Prop}
    (triple : Triple calm before program after raised)
    (holds : ∀ state, raised state → failed (handler state)) :
    Triple calm before (Prog.attempt program handler) after failed := by
  intro faults state known
  have known := triple faults state known
  unfold Prog.attempt
  rcases ran : program faults state with ⟨error | value, left, next⟩
  all_goals rw [ran] at known
  · exact ⟨holds _ known.1, known.2⟩
  · exact known

theorem ensure {last : State → State} {raised : State → Prop}
    (triple : Triple calm before program between raised)
    (returned : ∀ value state, between value state → after value (last state))
    (holds : ∀ state, raised state → failed (last state)) :
    Triple calm before (Prog.ensure program last) after failed := by
  intro faults state known
  have known := triple faults state known
  unfold Prog.ensure
  rcases ran : program faults state with ⟨error | value, left, next⟩
  all_goals rw [ran] at known
  · exact ⟨holds _ known.1, known.2⟩
  · exact ⟨returned _ _ known.1, known.2⟩

theorem given {fact : Prop} (triple : fact → Triple calm before program after failed) :
    Triple calm (fun state => fact ∧ before state) program after failed :=
  fun faults state known => triple known.1 faults state known.2

theorem exists_ {Index : Type} {each : Index → State → Prop}
    (triple : ∀ index, Triple calm (each index) program after failed) :
    Triple calm (fun state => ∃ index, each index state) program after failed :=
  fun faults state ⟨index, known⟩ => triple index faults state known

theorem pointwise (each : ∀ start, before start → Triple calm (fun state => state = start) program after failed) :
    Triple calm before program after failed :=
  fun faults state known => each state known faults state rfl

theorem ite {condition : Prop} [Decidable condition] {other : Prog State Value}
    (yes : condition → Triple calm before program after failed)
    (no : ¬ condition → Triple calm before other after failed) :
    Triple calm before (if condition then program else other) after failed := by
  split_ifs with holds
  · exact yes holds
  · exact no holds

theorem when {condition : Prop} [Decidable condition] {program : Prog State Unit}
    {after : Unit → State → Prop} (yes : condition → Triple calm before program after failed)
    (no : ¬ condition → ∀ state, before state → after () state) :
    Triple calm before (when condition program) after failed :=
  ite yes fun other => pure (no other)

end Triple

end TinyDSV41.Lib
