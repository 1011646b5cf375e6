/-
**Replacing one cell of a table.**

A table of cells changes one cell at a time. What a table adds up to (the elements its cells
contribute, a sum, a count) then changes by that cell alone.

* `exists_rest` — a table is one of its cells and the rest, whatever the cell becomes.
* `flatMap_set`, `sum_set`, `countP_set` — the three totals around a replaced cell.
* `map_set` — what is read of the cells and does not change.
* `lookup_insert_cases`, `lookup_erase_cases` — what a changed table by key holds.
-/

import Mathlib.Algebra.BigOperators.Group.List.Basic
import Mathlib.Data.List.AList
import Mathlib.Algebra.GroupWithZero.Nat

namespace TinyDSV41.Lib.Cells

open List AList

variable {Cell : Type} {table : List Cell} {position : ℕ} {cell : Cell}

theorem exists_rest (found : table[position]? = some cell) : ∃ rest, table.Perm (cell :: rest) ∧
      ∀ next, (table.set position next).Perm (next :: rest) := by
  obtain ⟨inside, rfl⟩ := List.getElem?_eq_some_iff.mp found
  exact ⟨table.eraseIdx position, (getElem_cons_eraseIdx_perm inside).symm,
    set_perm_cons_eraseIdx inside⟩

theorem flatMap_set {Item : Type} (contributes : Cell → List Item)
    (found : table[position]? = some cell) :
    ∃ rest, (table.flatMap contributes).Perm (contributes cell ++ rest) ∧
      ∀ next, ((table.set position next).flatMap contributes).Perm (contributes next ++ rest) := by
  obtain ⟨rest, before, after⟩ := exists_rest found
  refine ⟨rest.flatMap contributes, ?_, fun next => ?_⟩
  · simpa using before.flatMap_right contributes
  · simpa using (after next).flatMap_right contributes

theorem sum_set (amount : Cell → ℕ) (found : table[position]? = some cell) (next : Cell) :
    ((table.set position next).map amount).sum + amount cell = (table.map amount).sum + amount next := by
  obtain ⟨rest, before, after⟩ := exists_rest found
  have old := (before.map amount).sum_eq
  have new := ((after next).map amount).sum_eq
  simp only [map_cons, sum_cons] at old new
  omega

theorem countP_set (counts : Cell → Bool) (found : table[position]? = some cell) (next : Cell) :
    (table.set position next).countP counts + (if counts cell then 1 else 0)
      = table.countP counts + (if counts next then 1 else 0) := by
  obtain ⟨rest, before, after⟩ := exists_rest found
  have old := before.countP_eq counts
  have new := (after next).countP_eq counts
  simp only [countP_cons] at old new
  omega

theorem map_set {Item : Type} (reads : Cell → Item) (found : table[position]? = some cell) {next : Cell}
    (same : reads next = reads cell) : (table.set position next).map reads = table.map reads := by
  obtain ⟨inside, rfl⟩ := List.getElem?_eq_some_iff.mp found
  have within : position < (table.map reads).length := by
    rw [length_map]
    exact inside
  have read : reads table[position] = (table.map reads)[position] := (getElem_map reads).symm
  rw [map_set, same, read, set_getElem_self within]

theorem mem_set {next other : Cell} (mem : other ∈ table.set position next) :
    other = next ∨ other ∈ table := (mem_or_eq_of_mem_set mem).symm

theorem getElem?_set_cases {next other : Cell} {index : ℕ}
    (there : (table.set position next)[index]? = some other) :
    (index = position ∧ other = next) ∨ (index ≠ position ∧ table[index]? = some other) := by
  by_cases same : position = index
  · subst same
    rw [getElem?_set_self'] at there
    obtain ⟨_, _, rfl⟩ := Option.map_eq_some_iff.mp there
    exact Or.inl ⟨rfl, rfl⟩
  · rw [getElem?_set_ne same] at there
    exact Or.inr ⟨fun equal => same equal.symm, there⟩

/-! ### Tables by key -/

section Keyed

variable {Key Value : Type} [DecidableEq Key] {entries : AList fun _ : Key => Value} {key other : Key}
  {value found : Value}

theorem lookup_insert_cases (there : (entries.insert key value).lookup other = some found) :
    (other = key ∧ found = value) ∨ (other ≠ key ∧ entries.lookup other = some found) := by
  by_cases same : other = key
  · rw [same, lookup_insert] at there
    cases there
    exact Or.inl ⟨same, rfl⟩
  · rw [lookup_insert_ne same] at there
    exact Or.inr ⟨same, there⟩

theorem lookup_erase_cases (there : (entries.erase key).lookup other = some found) :
    other ≠ key ∧ entries.lookup other = some found := by
  by_cases same : other = key
  · rw [same, lookup_erase] at there
    cases there
  · rw [lookup_erase_ne same] at there
    exact ⟨same, there⟩

theorem mem_of_lookup (there : entries.lookup key = some found) : key ∈ entries :=
  lookup_isSome.mp (by rw [there]; rfl)

theorem mem_of_lookup_eq {others : AList fun _ : Key => Value} (same : entries.lookup key = others.lookup key)
    (there : key ∈ entries) : key ∈ others := by
  obtain ⟨value, found⟩ := Option.isSome_iff_exists.mp (lookup_isSome.mpr there)
  exact mem_of_lookup (same.symm.trans found)

theorem lookup_insert_fresh (fresh : key ∉ entries) (there : entries.lookup other = some found) :
    (entries.insert key value).lookup other = some found := by
  refine (lookup_insert_ne fun same => fresh ?_).trans there
  rw [← same]
  exact mem_of_lookup there

end Keyed

end TinyDSV41.Lib.Cells
