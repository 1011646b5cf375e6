/-
**Programs of a launch that write to one memory.**

* `launch` — the programs of a launch run one after another, in some order.
* `Schedule` — an order of all programs of a grid.
* `launch_cell` — a cell that one program writes holds what this program stored, whatever the order.
-/

import Mathlib.Data.List.Nodup
import Mathlib.Data.List.Perm.Basic

namespace TinyDSV41.Lib

open List

variable {Value Program : Type}

abbrev Memory (Value : Type) := ℕ → Value

def store (memory : Memory Value) (writes : List (ℕ × Value)) : Memory Value :=
  writes.foldl (fun memory write => Function.update memory write.1 write.2) memory

/-- Programs run one after another. What a program stores may depend on what the memory holds. -/
def launch (program : Program → Memory Value → List (ℕ × Value)) (order : List Program) (memory : Memory Value) :
    Memory Value := order.foldl (fun memory one => store memory (program one memory)) memory

/-- An order in which all programs of a grid run. -/
structure Schedule (grid : List Program) where
  order : List Program
  complete : order.Perm grid

variable {program : Program → Memory Value → List (ℕ × Value)} {writes : List (ℕ × Value)}
  {memory : Memory Value} {order : List Program} {cell : ℕ} {value : Value}

theorem store_cons (memory : Memory Value) (write : ℕ × Value) (writes : List (ℕ × Value)) :
    store memory (write :: writes) = store (Function.update memory write.1 write.2) writes := rfl

theorem store_other (apart : cell ∉ writes.map Prod.fst) : store memory writes cell = memory cell := by
  induction writes generalizing memory with
  | nil => rfl
  | cons write writes known =>
    obtain ⟨first, later⟩ := not_or.mp (mem_cons.not.mp apart)
    rw [store_cons, known later, Function.update_of_ne first]

theorem store_cell (there : cell ∈ writes.map Prod.fst) (alone : ∀ write ∈ writes, write.1 = cell → write.2 = value) :
    store memory writes cell = value := by
  induction writes generalizing memory with
  | nil => cases there
  | cons write writes known =>
    obtain ⟨first, later⟩ := forall_mem_cons.mp alone
    rw [store_cons]
    by_cases again : cell ∈ writes.map Prod.fst
    · exact known again later
    · have here : cell = write.1 := (mem_cons.mp there).resolve_right again
      rw [store_other again, ← first here.symm, here, Function.update_self]

theorem launch_other (apart : ∀ one ∈ order, ∀ memory, cell ∉ (program one memory).map Prod.fst) :
    launch program order memory cell = memory cell := by
  induction order generalizing memory with
  | nil => rfl
  | cons one order known =>
    obtain ⟨here, later⟩ := forall_mem_cons.mp apart
    show launch program order (store memory (program one memory)) cell = _
    rw [known later, store_other (here memory)]

/-- **A cell that one program of the launch writes holds what this program stored, whatever the order.** -/
theorem launch_cell {mine : Program} (distinct : order.Nodup) (listed : mine ∈ order)
    (apart : ∀ one ∈ order, one ≠ mine → ∀ memory, cell ∉ (program one memory).map Prod.fst)
    (stored : ∀ other : Memory Value, other cell = memory cell → store other (program mine other) cell = value) :
    launch program order memory cell = value := by
  induction order generalizing memory with
  | nil => cases listed
  | cons one order known =>
    obtain ⟨fresh, distinct⟩ := nodup_cons.mp distinct
    obtain ⟨here, later⟩ := forall_mem_cons.mp apart
    show launch program order (store memory (program one memory)) cell = _
    by_cases same : one = mine
    · subst same
      have others : ∀ other ∈ order, ∀ memory, cell ∉ (program other memory).map Prod.fst :=
        fun other mem => later other mem fun equal => fresh (equal ▸ mem)
      rw [launch_other others]
      exact stored memory rfl
    · have listed : mine ∈ order := (mem_cons.mp listed).resolve_left fun equal => same equal.symm
      refine known distinct listed later fun other kept => stored other ?_
      rw [kept, store_other (here same memory)]

end TinyDSV41.Lib
