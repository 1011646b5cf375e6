/-
**Relative paths and their texts.**

A path is a list of components. A text is split at its slashes; empty parts and single dots are dropped,
so that different texts can name one path, and a text is canonical if it is the text of its path.

* `parts_posix` — a path of proper components is read back from its text.
* `canonical_injective` — canonical texts of one path are equal.
-/

import Mathlib.Data.List.Basic

namespace TinyDSV41.Lib

abbrev Name := List Char

instance lawfulName : LawfulBEq Name := inferInstance

abbrev Path := List Name

def isComponent (name : Name) : Bool :=
  decide (name ≠ [] ∧ '/' ∉ name ∧ name ≠ ['.'] ∧ name ≠ ['.', '.'])

def parts (text : Name) : Path :=
  (text.splitOn '/').filter fun part => decide (part ≠ [] ∧ part ≠ ['.'])

def posix (path : Path) : Name := if path = [] then ['.'] else ['/'].intercalate path

/-- A relative text without parent components that is the text of its path. -/
def isCanonical (text : Name) : Bool :=
  decide (text.head? ≠ some '/' ∧ ['.', '.'] ∉ parts text ∧ posix (parts text) = text)

variable {path : Path} {first second : Name}

theorem isComponent_iff {name : Name} : isComponent name = true ↔
    name ≠ [] ∧ '/' ∉ name ∧ name ≠ ['.'] ∧ name ≠ ['.', '.'] := decide_eq_true_iff

theorem isCanonical_iff {text : Name} : isCanonical text = true ↔
    text.head? ≠ some '/' ∧ ['.', '.'] ∉ parts text ∧ posix (parts text) = text :=
  decide_eq_true_iff

section

variable (proper : ∀ name ∈ path, isComponent name = true)
include proper

theorem parts_posix : parts (posix path) = path := by
  unfold posix
  split_ifs with empty
  · rw [empty]
    decide
  · unfold parts
    rw [List.splitOn_intercalate '/' (fun name mem => (isComponent_iff.mp (proper name mem)).2.1)
      empty]
    refine List.filter_eq_self.mpr fun name mem => decide_eq_true ?_
    obtain ⟨filled, -, dot, -⟩ := isComponent_iff.mp (proper name mem)
    exact ⟨filled, dot⟩

theorem posix_injective {other : Path} (proper' : ∀ name ∈ other, isComponent name = true)
    (same : posix path = posix other) :
    path = other := by
  rw [← parts_posix proper, ← parts_posix proper', same]

end

theorem canonical_injective (canonical : isCanonical first = true)
    (canonical' : isCanonical second = true) (same : parts first = parts second) : first = second := by
  rw [← (isCanonical_iff.mp canonical).2.2, ← (isCanonical_iff.mp canonical').2.2, same]

end TinyDSV41.Lib
