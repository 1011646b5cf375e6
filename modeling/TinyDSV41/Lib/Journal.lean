/-
**A disk that a process changes by durable operations, and where the process can be stopped.**

A request handler makes a list of operations. A handler that runs to its end makes all of them; a
process that is stopped inside the handler has made the first few. What every legal operation keeps
therefore holds at each of these points.

* `File` — a file that a process creates and then fills.
* `Storage.Legal` — each operation of a list is legal where it is made.
* `Storage.evolves_replay`, `Storage.evolves_stopped` — a legal list, and each of its beginnings, is a
  path of legal operations.
* `Storage.Evolves.keeps` — what a legal operation keeps, a path keeps.
* `Script` — a handler as a program that reads the disk, makes operations and may raise.
* `Script.Ensures` — its operations are legal, and where it leaves the disk; `ensures_bind` and the
  other rules follow the program.
-/

import Mathlib.Logic.Relation
import Mathlib.Data.List.Basic

namespace TinyDSV41.Lib

/-- A file that is created and then filled; a process that is stopped in between leaves it torn. -/
inductive File (Content : Type)
  | torn
  | whole (content : Content)
deriving DecidableEq

/-- Disks with operations, and which operation may be made on which disk. -/
structure Storage (Disk Op : Type) where
  apply : Disk → Op → Disk
  legal : Disk → Op → Prop

namespace Storage

variable {Disk Op : Type} (storage : Storage Disk Op)

def replay (disk : Disk) (ops : List Op) : Disk := ops.foldl storage.apply disk

def Legal : Disk → List Op → Prop
  | _, [] => True
  | disk, op :: rest => storage.legal disk op ∧ Legal (storage.apply disk op) rest

def Evolves : Disk → Disk → Prop :=
  Relation.ReflTransGen fun before after =>
    ∃ op, storage.legal before op ∧ after = storage.apply before op

variable {storage} {disk before after : Disk} {ops more : List Op}

theorem replay_append (disk : Disk) (ops more : List Op) :
    storage.replay disk (ops ++ more) = storage.replay (storage.replay disk ops) more :=
  List.foldl_append

theorem legal_nil (disk : Disk) : storage.Legal disk [] := trivial

theorem legal_single {op : Op} (legal : storage.legal disk op) : storage.Legal disk [op] :=
  ⟨legal, trivial⟩

theorem Legal.append (first : storage.Legal disk ops)
    (second : storage.Legal (storage.replay disk ops) more) : storage.Legal disk (ops ++ more) := by
  induction ops generalizing disk with
  | nil => exact second
  | cons op rest known => exact ⟨first.1, known first.2 second⟩

theorem Legal.take (legal : storage.Legal disk ops) (count : ℕ) :
    storage.Legal disk (ops.take count) := by
  induction ops generalizing disk count with
  | nil =>
    rw [List.take_nil]
    exact legal
  | cons op rest known =>
    cases count with
    | zero => trivial
    | succ count => exact ⟨legal.1, known legal.2 count⟩

theorem Evolves.refl (disk : Disk) : storage.Evolves disk disk := Relation.ReflTransGen.refl

theorem Evolves.trans {middle : Disk} (first : storage.Evolves before middle)
    (second : storage.Evolves middle after) : storage.Evolves before after :=
  Relation.ReflTransGen.trans first second

theorem evolves_replay (legal : storage.Legal disk ops) :
    storage.Evolves disk (storage.replay disk ops) := by
  induction ops generalizing disk with
  | nil => exact Evolves.refl disk
  | cons op rest known => exact Relation.ReflTransGen.head ⟨op, legal.1, rfl⟩ (known legal.2)

theorem evolves_stopped (legal : storage.Legal disk ops) (count : ℕ) :
    storage.Evolves disk (storage.replay disk (ops.take count)) :=
  evolves_replay (legal.take count)

theorem Evolves.keeps (path : storage.Evolves before after) (property : Disk → Prop)
    (kept : ∀ disk op, storage.legal disk op → property disk → property (storage.apply disk op))
    (holds : property before) : property after := by
  induction path with
  | refl => exact holds
  | tail _ last known =>
    obtain ⟨op, legal, rfl⟩ := last
    exact kept _ op legal known

end Storage

/-! ### Handlers -/

/-- A handler: what it makes of the disk that it finds, and the value or error it ends with. -/
def Script {Disk Op : Type} (_storage : Storage Disk Op) (Error Value : Type) : Type :=
  Disk → List Op × Except Error Value

namespace Script

variable {Disk Op Error Value First Second : Type} {storage : Storage Disk Op}

def run (script : Script storage Error Value) (disk : Disk) : List Op × Except Error Value :=
  script disk

def done (value : Value) : Script storage Error Value := fun _ => ([], .ok value)

/-- The second part runs on the disk that the first one leaves; an error ends the handler. -/
def andThen (first : Script storage Error First) (rest : First → Script storage Error Second) :
    Script storage Error Second := fun disk =>
  match (first.run disk).2 with
  | .error error => ((first.run disk).1, .error error)
  | .ok value =>
    ((first.run disk).1 ++ ((rest value).run (storage.replay disk (first.run disk).1)).1,
      ((rest value).run (storage.replay disk (first.run disk).1)).2)

instance : Monad (Script storage Error) where
  pure := done
  bind := andThen

def perform (op : Op) : Script storage Error Unit := fun _ => ([op], .ok ())

def observe : Script storage Error Disk := fun disk => ([], .ok disk)

/-- Ends with an error, unless there is a value. -/
def lift (result : Except Error Value) : Script storage Error Value := fun _ => ([], result)

def raise (error : Error) : Script storage Error Value := fun _ => ([], .error error)

section Sequence

variable {first : Script storage Error First} {rest : First → Script storage Error Second} {disk : Disk}

theorem run_bind_error {error : Error} (failed : (first.run disk).2 = .error error) :
    (first >>= rest).run disk = ((first.run disk).1, .error error) := by
  show andThen first rest disk = _
  unfold andThen
  rw [failed]

theorem run_bind_ok {value : First} (ended : (first.run disk).2 = .ok value) : (first >>= rest).run disk
      = ((first.run disk).1 ++ ((rest value).run (storage.replay disk (first.run disk).1)).1,
        ((rest value).run (storage.replay disk (first.run disk).1)).2) := by
  show andThen first rest disk = _
  unfold andThen
  rw [ended]

end Sequence

theorem run_observe_bind {rest : Disk → Script storage Error Value} :
    (observe >>= rest).run disk = (rest disk).run disk := rfl

theorem run_lift_bind {result : Except Error First} :
    (lift result >>= rest).run disk = match result with
        | .error error => ([], .error error)
        | .ok value => (rest value).run disk := by
  cases result <;> rfl

theorem run_perform_bind {op : Op} {rest : Unit → Script storage Error Value} :
    (perform op >>= rest).run disk
      = (op :: ((rest ()).run (storage.apply disk op)).1, ((rest ()).run (storage.apply disk op)).2) := rfl

/-- On a disk of the given kind every operation of the handler is legal, and it leaves a disk that its
value, or its error, vouches for. -/
def Ensures (pre : Disk → Prop) (script : Script storage Error Value) (post : Value → Disk → Prop)
    (fails : Disk → Prop) : Prop :=
  ∀ disk, pre disk → storage.Legal disk (script.run disk).1 ∧
    match (script.run disk).2 with
    | .ok value => post value (storage.replay disk (script.run disk).1)
    | .error _ => fails (storage.replay disk (script.run disk).1)

variable {pre : Disk → Prop} {script : Script storage Error Value} {post : Value → Disk → Prop}
  {fails : Disk → Prop}

theorem ensures_done {value : Value} (holds : ∀ disk, pre disk → post value disk) :
    Ensures pre (pure value : Script storage Error Value) post fails :=
  fun disk given => ⟨trivial, holds disk given⟩

theorem ensures_raise {error : Error} (holds : ∀ disk, pre disk → fails disk) :
    Ensures pre (raise error : Script storage Error Value) post fails :=
  fun disk given => ⟨trivial, holds disk given⟩

theorem ensures_lift {result : Except Error Value}
    (holds : ∀ disk, pre disk → ∀ value, result = .ok value → post value disk)
    (raises : ∀ disk, pre disk → fails disk) :
    Ensures pre (lift result : Script storage Error Value) post fails := by
  intro disk given
  refine ⟨trivial, ?_⟩
  cases result with
  | error error => exact raises disk given
  | ok value => exact holds disk given value rfl

theorem ensures_perform {op : Op} {after : Unit → Disk → Prop}
    (legal : ∀ disk, pre disk → storage.legal disk op)
    (holds : ∀ disk, pre disk → after () (storage.apply disk op)) :
    Ensures pre (perform op : Script storage Error Unit) after fails :=
  fun disk given => ⟨⟨legal disk given, trivial⟩, holds disk given⟩

theorem ensures_bind {first : Script storage Error First} {after : Second → Disk → Prop}
    (middle : First → Disk → Prop) (one : Ensures pre first middle fails)
    (two : ∀ value, Ensures (middle value) (rest value) after fails) :
    Ensures pre (first >>= rest) after fails := by
  intro disk given
  obtain ⟨legal, ends⟩ := one disk given
  cases result : (first.run disk).2 with
  | error error =>
    rw [result] at ends
    rw [run_bind_error result]
    exact ⟨legal, ends⟩
  | ok value =>
    rw [result] at ends
    obtain ⟨legal', ends'⟩ := two value _ ends
    rw [run_bind_ok result]
    refine ⟨legal.append legal', ?_⟩
    rw [Storage.replay_append]
    exact ends'

theorem Ensures.weaken {pre' : Disk → Prop} {post' : Value → Disk → Prop} {fails' : Disk → Prop}
    (ensures : Ensures pre script post fails) (stronger : ∀ disk, pre' disk → pre disk)
    (weaker : ∀ value disk, post value disk → post' value disk)
    (worse : ∀ disk, fails disk → fails' disk) : Ensures pre' script post' fails' := by
  intro disk given
  obtain ⟨legal, ends⟩ := ensures disk (stronger disk given)
  refine ⟨legal, ?_⟩
  cases result : (script.run disk).2 with
  | error error =>
    rw [result] at ends
    exact worse _ ends
  | ok value =>
    rw [result] at ends
    exact weaker value _ ends

theorem Ensures.given {pre' : Disk → Prop} (ensures : Ensures pre script post fails)
    (stronger : ∀ disk, pre' disk → pre disk) : Ensures pre' script post fails :=
  fun disk given => ensures disk (stronger disk given)

theorem ensures_ite {test : Prop} [Decidable test] {first second : Script storage Error Value}
    (yes : test → Ensures pre first post fails) (no : ¬ test → Ensures pre second post fails) :
    Ensures pre (if test then first else second) post fails := by
  by_cases holds : test
  · rw [if_pos holds]
    exact yes holds
  · rw [if_neg holds]
    exact no holds

theorem ensures_each (each : ∀ disk, pre disk → Ensures (· = disk) script post fails) :
    Ensures pre script post fails :=
  fun disk given => each disk given disk rfl

theorem ensures_read {rest : Disk → Script storage Error Value}
    (each : ∀ disk, pre disk → Ensures (· = disk) (rest disk) post fails) :
    Ensures pre (observe >>= rest) post fails :=
  fun disk given => each disk given disk rfl

theorem Ensures.legal (ensures : Ensures pre script post fails) (given : pre disk) :
    storage.Legal disk (script.run disk).1 := (ensures disk given).1

end Script

end TinyDSV41.Lib
