/-
**Handlers that catch exceptions and clean up behind them.**

* `Script.attempt` — an exception of the first part is handled by the second.
* `Script.lastly` — a part that runs in any case; its own exception replaces the one before.
* `ensures_attempt`, `ensures_lastly` — their rules.
* `ensures_liftCases`, `ensures_performBind` — the rules for a call or an operation and what follows it.
-/

import TinyDSV41.Lib.Journal

namespace TinyDSV41.Lib.Script

open Storage

variable {Disk Op Error Value First : Type} {storage : Storage Disk Op}

/-- `try: …  except …: …` -/
def attempt (script : Script storage Error Value) (handler : Error → Script storage Error Value) :
    Script storage Error Value := fun disk =>
  match (script.run disk).2 with
  | .ok value => ((script.run disk).1, .ok value)
  | .error error =>
    ((script.run disk).1 ++ ((handler error).run (storage.replay disk (script.run disk).1)).1,
      ((handler error).run (storage.replay disk (script.run disk).1)).2)

/-- `try: …  finally: …` -/
def lastly (script : Script storage Error Value) (final : Script storage Error Unit) :
    Script storage Error Value := fun disk =>
  ((script.run disk).1 ++ (final.run (storage.replay disk (script.run disk).1)).1,
    match (final.run (storage.replay disk (script.run disk).1)).2 with
    | .error error => .error error
    | .ok () => (script.run disk).2)

section Runs

variable {script : Script storage Error Value} {handler : Error → Script storage Error Value}
  {final : Script storage Error Unit} {disk : Disk}

theorem run_attempt_ok {value : Value} (ended : (script.run disk).2 = .ok value) :
    (attempt script handler).run disk = ((script.run disk).1, .ok value) := by
  show attempt script handler disk = _
  unfold attempt
  rw [ended]

theorem run_attempt_error {error : Error} (raised : (script.run disk).2 = .error error) :
    (attempt script handler).run disk
      = ((script.run disk).1 ++ ((handler error).run (storage.replay disk (script.run disk).1)).1,
        ((handler error).run (storage.replay disk (script.run disk).1)).2) := by
  show attempt script handler disk = _
  unfold attempt
  rw [raised]

theorem run_lastly_ok (ended : (final.run (storage.replay disk (script.run disk).1)).2 = .ok ()) :
    (lastly script final).run disk
      = ((script.run disk).1 ++ (final.run (storage.replay disk (script.run disk).1)).1,
        (script.run disk).2) := by
  show lastly script final disk = _
  unfold lastly
  rw [ended]

theorem run_lastly_error {error : Error}
    (raised : (final.run (storage.replay disk (script.run disk).1)).2 = .error error) :
    (lastly script final).run disk
      = ((script.run disk).1 ++ (final.run (storage.replay disk (script.run disk).1)).1,
        .error error) := by
  show lastly script final disk = _
  unfold lastly
  rw [raised]

end Runs

section Rules

variable {pre : Disk → Prop} {script : Script storage Error Value} {post : Value → Disk → Prop}
  {fails caught : Disk → Prop}

theorem ensures_attempt {handler : Error → Script storage Error Value}
    (body : Ensures pre script post caught)
    (handles : ∀ error, Ensures caught (handler error) post fails) :
    Ensures pre (attempt script handler) post fails := by
  intro disk given
  obtain ⟨legal, ends⟩ := body disk given
  cases result : (script.run disk).2 with
  | ok value =>
    rw [result] at ends
    rw [run_attempt_ok result]
    exact ⟨legal, ends⟩
  | error error =>
    rw [result] at ends
    obtain ⟨legal', ends'⟩ := handles error _ ends
    rw [run_attempt_error result]
    refine ⟨legal.append legal', ?_⟩
    rw [replay_append]
    exact ends'

/-- The last part runs behind a value and behind an exception. -/
theorem ensures_lastly {final : Script storage Error Unit} {middle : Value → Disk → Prop}
    {failed : Disk → Prop} (body : Ensures pre script middle failed)
    (done : ∀ value, Ensures (middle value) final (fun _ => post value) fails)
    (undone : Ensures failed final (fun _ => fails) fails) :
    Ensures pre (lastly script final) post fails := by
  intro disk given
  obtain ⟨legal, ends⟩ := body disk given
  cases result : (script.run disk).2 with
  | ok value =>
    rw [result] at ends
    obtain ⟨legal', last⟩ := done value _ ends
    cases finished : (final.run (storage.replay disk (script.run disk).1)).2 with
    | ok _ =>
      rw [finished] at last
      rw [run_lastly_ok finished, result, replay_append]
      exact ⟨legal.append legal', last⟩
    | error error =>
      rw [finished] at last
      rw [run_lastly_error finished, replay_append]
      exact ⟨legal.append legal', last⟩
  | error error =>
    rw [result] at ends
    obtain ⟨legal', last⟩ := undone _ ends
    cases finished : (final.run (storage.replay disk (script.run disk).1)).2 with
    | ok _ =>
      rw [finished] at last
      rw [run_lastly_ok finished, result, replay_append]
      exact ⟨legal.append legal', last⟩
    | error later =>
      rw [finished] at last
      rw [run_lastly_error finished, replay_append]
      exact ⟨legal.append legal', last⟩

variable {rest : First → Script storage Error Value}

theorem ensures_liftCases {result : Except Error First}
    (raises : ∀ error, result = .error error → ∀ disk, pre disk → fails disk)
    (follows : ∀ value, result = .ok value → Ensures pre (rest value) post fails) :
    Ensures pre (lift result >>= rest) post fails := by
  intro disk given
  rw [run_lift_bind]
  cases returned : result with
  | error error => exact ⟨trivial, raises error returned disk given⟩
  | ok value => exact follows value returned disk given

theorem ensures_liftBind {result : Except Error First} (raises : ∀ disk, pre disk → fails disk)
    (follows : ∀ value, result = .ok value → Ensures pre (rest value) post fails) :
    Ensures pre (lift result >>= rest) post fails :=
  ensures_liftCases (fun _ _ => raises) follows

theorem ensures_performBind {op : Op} {rest : Unit → Script storage Error Value} (middle : Disk → Prop)
    (legal : ∀ disk, pre disk → storage.legal disk op)
    (holds : ∀ disk, pre disk → middle (storage.apply disk op))
    (follows : Ensures middle (rest ()) post fails) :
    Ensures pre (perform op >>= rest) post fails :=
  ensures_bind (fun _ => middle) (ensures_perform legal holds) fun _ => follows

end Rules

end TinyDSV41.Lib.Script
