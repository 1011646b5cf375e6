/-
**Histories with a latch.**

A history is the list of what has happened. Behind a trigger the blocked events must stay away.

* `Latch.quiet` — events that are not blocked can be added at any time.
* `Latch.calm` — as long as nothing has triggered the latch, any event can be added.
-/

import Mathlib.Data.List.Pairwise

namespace TinyDSV41.Lib.History

open List

variable {Event : Type} {trigger blocked : Event → Bool} {log : List Event}

/-- Behind a trigger nothing blocked happens. -/
def Latch (trigger blocked : Event → Bool) (log : List Event) : Prop :=
  log.Pairwise fun earlier later => trigger earlier = true → blocked later = false

theorem Latch.nil : Latch trigger blocked [] := List.Pairwise.nil

theorem Latch.quiet (latch : Latch trigger blocked log) {events : List Event}
    (quiet : ∀ event ∈ events, blocked event = false) : Latch trigger blocked (log ++ events) := by
  refine pairwise_append.mpr ⟨latch, ?_, fun _ _ later mem _ => quiet later mem⟩
  exact pairwise_of_forall_mem_list fun _ _ later mem _ => quiet later mem

theorem Latch.calm (latch : Latch trigger blocked log) (calm : ∀ event ∈ log, trigger event = false)
    {event : Event} : Latch trigger blocked (log ++ [event]) := by
  refine pairwise_append.mpr ⟨latch, pairwise_singleton _ _, ?_⟩
  intro earlier mem _ _ triggered
  rw [calm earlier mem] at triggered
  cases triggered

theorem triggered_append {events : List Event} (calm : ∀ event ∈ events, trigger event = false)
    (triggered : ∃ event ∈ log ++ events, trigger event = true) : ∃ event ∈ log, trigger event = true := by
  obtain ⟨event, mem, holds⟩ := triggered
  rcases mem_append.mp mem with before | new
  · exact ⟨event, before, holds⟩
  · rw [calm event new] at holds
    cases holds

end TinyDSV41.Lib.History
