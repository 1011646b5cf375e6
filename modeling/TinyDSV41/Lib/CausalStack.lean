/-
**Stacks of causal layers and what they remember.**

A layer writes a memory at each position, and reads the memories of the positions so far.

* `Layer.full`, `stack` — a layer, or a stack of them, at every position of a sequence.
* `memoriesOf` — what each layer has written for a sequence.
* `extend` — one more position, computed from the memories alone.
* `extend_memoriesOf` — it is what the whole sequence yields at its last position, and it leaves its memories.
-/

import Mathlib.Data.List.Basic

namespace TinyDSV41.Lib

open List

variable {State Memory : Type}

/-- What a position writes, and what it becomes when it reads the memories up to its own. -/
structure Layer (State Memory : Type) where
  write : ℕ → State → Memory
  read : ℕ → State → List Memory → State

namespace Layer

variable (layer : Layer State Memory)

/-- The memories of the positions from one on. -/
def written (start : ℕ) (states : List State) : List Memory :=
  (states.zipIdx start).map fun entry => layer.write entry.2 entry.1

variable (states : List State)

/-- The layer at every position of a sequence. -/
def full (states : List State) : List State :=
  states.zipIdx.map fun entry => layer.read entry.2 entry.1 ((layer.written 0 states).take (entry.2 + 1))

theorem length_written (start : ℕ) (states : List State) : (layer.written start states).length = states.length := by
  unfold written
  rw [length_map, length_zipIdx]

theorem length_full : (layer.full states).length = states.length := by
  unfold full
  rw [length_map, length_zipIdx]

theorem written_append (start : ℕ) (states more : List State) : layer.written start (states ++ more)
    = layer.written start states ++ layer.written (start + states.length) more := by
  unfold written
  rw [zipIdx_append, map_append]

theorem full_concat (state : State) : layer.full (states ++ [state]) = layer.full states
    ++ [layer.read states.length state (layer.written 0 states ++ [layer.write states.length state])] := by
  have whole : layer.written 0 (states ++ [state]) = layer.written 0 states ++ [layer.write states.length state] := by
    rw [written_append, Nat.zero_add]
    rfl
  unfold full
  rw [zipIdx_append, map_append, whole]
  congr 1
  · refine map_congr_left fun entry mem => ?_
    have inside := snd_lt_of_mem_zipIdx mem
    rw [take_append_of_le_length (by rw [length_written]; omega)]
  · have all : (layer.written 0 states ++ [layer.write states.length state]).length = states.length + 1 := by
      rw [length_append, length_written, length_singleton]
    rw [zipIdx_singleton, map_singleton, Nat.zero_add, take_of_length_le (Nat.le_of_eq all)]

end Layer

def stack : List (Layer State Memory) → List State → List State
  | [], states => states
  | layer :: layers, states => stack layers (layer.full states)

/-- What each layer has written for a sequence. -/
def memoriesOf : List (Layer State Memory) → List State → List (List Memory)
  | [], _ => []
  | layer :: layers, states => layer.written 0 states :: memoriesOf layers (layer.full states)

def extend (position : ℕ) : List (Layer State Memory) → List (List Memory) → State → List (List Memory) × State
  | [], _, state => ([], state)
  | layer :: layers, memories, state =>
    let seen := memories.headD [] ++ [layer.write position state]
    let further := extend position layers memories.tail (layer.read position state seen)
    (seen :: further.1, further.2)

section

variable (layers : List (Layer State Memory)) (states : List State)
include layers states

theorem length_stack : (stack layers states).length = states.length := by
  induction layers generalizing states with
  | nil => rfl
  | cons layer layers known => exact (known (layer.full states)).trans (layer.length_full states)

/-- **One more position is what the whole sequence yields at its end.** -/
theorem extend_memoriesOf (state : State) :
    (extend states.length layers (memoriesOf layers states) state).1 = memoriesOf layers (states ++ [state])
      ∧ stack layers (states ++ [state])
        = stack layers states ++ [(extend states.length layers (memoriesOf layers states) state).2] := by
  induction layers generalizing states state with
  | nil => exact ⟨rfl, rfl⟩
  | cons layer layers known =>
    obtain ⟨memories, outputs⟩ := known (layer.full states)
      (layer.read states.length state (layer.written 0 states ++ [layer.write states.length state]))
    rw [layer.length_full, ← layer.full_concat] at memories outputs
    refine ⟨?_, outputs⟩
    show (layer.written 0 states ++ [layer.write states.length state]) :: _
      = layer.written 0 (states ++ [state]) :: memoriesOf layers (layer.full (states ++ [state]))
    rw [layer.written_append, Nat.zero_add, ← memories]
    rfl

theorem stack_getLast? (state : State) : (stack layers (states ++ [state])).getLast?
      = some (extend states.length layers (memoriesOf layers states) state).2 := by
  rw [(extend_memoriesOf layers states state).2, getLast?_concat]

end

end TinyDSV41.Lib
