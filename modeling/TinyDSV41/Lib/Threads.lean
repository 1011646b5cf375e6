/-
**Threads around a lock and a gate.**

The threads of a system are a table of places: a thread keeps its number, and one that has ended stays
at its last place. A lock admits one thread at a time to the places within it; a gate counts what is
inside, so that nothing is inside when its count is zero.

* `Each.spawn`, `Each.move` — what holds of every thread, when one starts or moves.
* `Locked.enter`, `Locked.stay`, `Locked.leave` — exactly the holder of a lock is within it.
* `Counted.spawn`, `Counted.move`, `Counted.empty` — the count of a gate.
* `Once.spawn`, `Once.move`, `Once.serve` — every key is admitted once, and served at most once.
-/

import TinyDSV41.Lib.Cells
import Mathlib.Algebra.Order.BigOperators.Group.List
import Mathlib.Algebra.Order.Group.Nat

namespace TinyDSV41.Lib.Threads

open List Cells

variable {Place : Type} {table : List Place} {thread other : ℕ} {place next found : Place}

theorem spawn_cases (there : (table ++ [next])[thread]? = some found) :
    (thread = table.length ∧ found = next) ∨ table[thread]? = some found := by
  rcases Nat.lt_trichotomy thread table.length with before | same | behind
  · rw [getElem?_append_left before] at there
    exact Or.inr there
  · subst same
    rw [getElem?_concat_length] at there
    exact Or.inl ⟨rfl, (Option.some.inj there).symm⟩
  · rw [getElem?_eq_none (by rw [length_append, length_singleton]; omega)] at there
    cases there

theorem spawn_old (there : table[thread]? = some found) : (table ++ [next])[thread]? = some found := by
  obtain ⟨inside, -⟩ := List.getElem?_eq_some_iff.mp there
  rw [List.getElem?_append_left inside]
  exact there

theorem move_self (there : table[thread]? = some place) :
    (table.set thread next)[thread]? = some next := by
  obtain ⟨inside, -⟩ := List.getElem?_eq_some_iff.mp there
  exact List.getElem?_set_self inside

theorem move_other (different : other ≠ thread) :
    (table.set thread next)[other]? = table[other]? := getElem?_set_ne different.symm

/-! ### What holds of every thread -/

/-- A property of every thread and its place. -/
def Each (holds : ℕ → Place → Prop) (table : List Place) : Prop :=
  ∀ thread place, table[thread]? = some place → holds thread place

variable {holds holds' : ℕ → Place → Prop}

theorem Each.nil : Each holds [] := nofun

theorem Each.imp (each : Each holds table)
    (weaker : ∀ thread place, table[thread]? = some place → holds thread place → holds' thread place) :
    Each holds' table := fun thread place there => weaker thread place there (each thread place there)

theorem Each.spawn (each : Each holds table) (starts : holds table.length next) :
    Each holds (table ++ [next]) := by
  intro thread found there
  rcases spawn_cases there with ⟨rfl, rfl⟩ | before
  · exact starts
  · exact each thread found before

theorem Each.move (each : Each holds table) (moves : holds thread next) :
    Each holds (table.set thread next) := by
  intro other found there
  rcases getElem?_set_cases there with ⟨rfl, rfl⟩ | ⟨-, before⟩
  · exact moves
  · exact each other found before

/-! ### A lock -/

/-- Exactly the holder of the lock is at a place within it. -/
structure Locked (within : Place → Prop) (table : List Place) (lock : Option ℕ) : Prop where
  holder : ∀ thread place, table[thread]? = some place → within place → lock = some thread
  held : ∀ thread, lock = some thread → ∃ place, table[thread]? = some place ∧ within place

variable {within : Place → Prop} {lock : Option ℕ}

theorem Locked.nil : Locked within [] none :=
  ⟨nofun, nofun⟩

theorem Locked.spawn (locked : Locked within table lock) (outside : ¬ within next) :
    Locked within (table ++ [next]) lock := by
  refine ⟨fun thread found there inside => ?_, fun thread same => ?_⟩
  · rcases spawn_cases there with ⟨-, rfl⟩ | before
    · exact absurd inside outside
    · exact locked.holder thread found before inside
  · obtain ⟨place, there, inside⟩ := locked.held thread same
    exact ⟨place, spawn_old there, inside⟩

theorem Locked.spawnHolder (locked : Locked within table none) (inside : within next) :
    Locked within (table ++ [next]) (some table.length) := by
  refine ⟨fun thread found there within_ => ?_, fun thread same => ?_⟩
  · rcases spawn_cases there with ⟨rfl, -⟩ | before
    · rfl
    · cases locked.holder thread found before within_
  · cases same
    exact ⟨next, getElem?_concat_length, inside⟩

theorem Locked.enter (locked : Locked within table none) (there : table[thread]? = some place)
    (inside : within next) : Locked within (table.set thread next) (some thread) := by
  refine ⟨fun other found here within_ => ?_, fun other same => ?_⟩
  · rcases getElem?_set_cases here with ⟨rfl, -⟩ | ⟨-, before⟩
    · rfl
    · cases locked.holder other found before within_
  · cases same
    exact ⟨next, move_self there, inside⟩

section

variable (locked : Locked within table lock) (there : table[thread]? = some place)
include locked there

theorem Locked.stay (same : within next ↔ within place) : Locked within (table.set thread next) lock := by
  refine ⟨fun other found here inside => ?_, fun other held => ?_⟩
  · rcases getElem?_set_cases here with ⟨rfl, rfl⟩ | ⟨-, before⟩
    · exact locked.holder other place there (same.mp inside)
    · exact locked.holder other found before inside
  · obtain ⟨found, before, inside⟩ := locked.held other held
    by_cases here : other = thread
    · subst here
      rw [there] at before
      cases before
      exact ⟨next, move_self there, same.mpr inside⟩
    · exact ⟨found, (move_other here).trans before, inside⟩

theorem Locked.leave (inside : within place) (outside : ¬ within next) :
    Locked within (table.set thread next) none := by
  have holder := locked.holder thread place there inside
  refine ⟨fun other found here within_ => ?_, nofun⟩
  rcases getElem?_set_cases here with ⟨-, rfl⟩ | ⟨different, before⟩
  · exact absurd within_ outside
  · have again := locked.holder other found before within_
    rw [holder] at again
    exact absurd (Option.some.inj again).symm different

theorem Locked.alone (inside : within place) (there' : table[other]? = some found)
    (inside' : within found) :
    other = thread := by
  have one := locked.holder thread place there inside
  rw [locked.holder other found there' inside'] at one
  exact Option.some.inj one

end

/-! ### A gate -/

def Counted (weight : Place → ℕ) (table : List Place) (count : ℕ) : Prop :=
  count = (table.map weight).sum

variable {weight : Place → ℕ} {count : ℕ}

theorem Counted.nil : Counted weight [] 0 := rfl

section

variable (counted : Counted weight table count)
include counted

theorem Counted.spawn : Counted weight (table ++ [next]) (count + weight next) := by
  unfold Counted at counted ⊢
  rw [map_append, sum_append, counted]
  rfl

theorem Counted.move {count' : ℕ} (there : table[thread]? = some place)
    (changes : count' + weight place = count + weight next) :
    Counted weight (table.set thread next) count' := by
  have total := sum_set weight there next
  unfold Counted at counted ⊢
  omega

theorem Counted.le (there : table[thread]? = some place) : weight place ≤ count := by
  rw [counted]
  exact single_le_sum (fun _ _ => Nat.zero_le _) _ (mem_map_of_mem (mem_of_getElem? there))

end

theorem Counted.empty (counted : Counted weight table 0) (there : table[thread]? = some place) :
    weight place = 0 := Nat.le_zero.mp (counted.le there)

/-! ### Keys that are served once -/

section Once

variable {Key : Type} {early : Place → Prop} {keys : Place → List Key} {seen done : List Key}

/-- The threads at the early places have keys of their own, which were seen and are not served yet. -/
structure Once (early : Place → Prop) (keys : Place → List Key) (table : List Place)
    (seen done : List Key) : Prop where
  once : done.Nodup
  known : ∀ key ∈ done, key ∈ seen
  distinct : Each (fun _ place => early place → (keys place).Nodup) table
  seen : Each (fun _ place => early place → ∀ key ∈ keys place, key ∈ seen) table
  unserved : Each (fun _ place => early place → ∀ key ∈ keys place, key ∉ done) table
  apart : ∀ (thread other : ℕ) (place found : Place), table[thread]? = some place →
    table[other]? = some found → early place → early found →
    ∀ key ∈ keys place, key ∈ keys found → thread = other

theorem Once.nil : Once early keys [] seen [] where
  once := nodup_nil
  known := nofun
  distinct := Each.nil
  seen := Each.nil
  unserved := Each.nil
  apart := nofun

section

variable (served : Once early keys table seen done)
include served

theorem Once.spawn (distinct : (keys next).Nodup) (unseen : ∀ key ∈ keys next, key ∉ seen) :
    Once early keys (table ++ [next]) (seen ++ keys next) done where
  once := served.once
  known := fun key mem => mem_append_left _ (served.known key mem)
  distinct := served.distinct.spawn fun _ => distinct
  seen := (served.seen.imp fun _ _ _ own arrives key mem =>
    mem_append_left _ (own arrives key mem)).spawn fun _ _ => mem_append_right _
  unserved := served.unserved.spawn fun _ key own mem => unseen key own (served.known key mem)
  apart := by
    intro one two first second there there' arrives arrives' key own own'
    rcases spawn_cases there with ⟨rfl, rfl⟩ | before
    · rcases spawn_cases there' with ⟨rfl, -⟩ | before'
      · rfl
      · exact absurd (served.seen two second before' arrives' key own') (unseen key own)
    · rcases spawn_cases there' with ⟨-, rfl⟩ | before'
      · exact absurd (served.seen one first before arrives key own) (unseen key own')
      · exact served.apart one two first second before before' arrives arrives' key own own'

theorem Once.see {seen' : List Key} (grows : ∀ key ∈ seen, key ∈ seen') :
    Once early keys table seen' done where
  once := served.once
  known := fun key mem => grows key (served.known key mem)
  distinct := served.distinct
  seen := served.seen.imp fun _ _ _ own arrives key mem => grows key (own arrives key mem)
  unserved := served.unserved
  apart := served.apart

theorem Once.spawnLate (late : ¬ early next) : Once early keys (table ++ [next]) seen done where
  once := served.once
  known := served.known
  distinct := served.distinct.spawn fun arrives => absurd arrives late
  seen := served.seen.spawn fun arrives => absurd arrives late
  unserved := served.unserved.spawn fun arrives => absurd arrives late
  apart := by
    intro one two first second there there' arrives arrives' key own own'
    rcases spawn_cases there with ⟨-, rfl⟩ | before
    · exact absurd arrives late
    · rcases spawn_cases there' with ⟨-, rfl⟩ | before'
      · exact absurd arrives' late
      · exact served.apart one two first second before before' arrives arrives' key own own'

theorem Once.move (there : table[thread]? = some place) (same : keys next = keys place)
    (later : early next → early place) :
    Once early keys (table.set thread next) seen done := by
  have old : ∀ {other : ℕ} {found : Place}, (table.set thread next)[other]? = some found → early found →
      ∃ before, table[other]? = some before ∧ early before ∧ keys before = keys found := by
    intro other found here arrives
    rcases getElem?_set_cases here with ⟨rfl, rfl⟩ | ⟨-, before⟩
    · exact ⟨place, there, later arrives, same.symm⟩
    · exact ⟨found, before, arrives, rfl⟩
  refine ⟨served.once, served.known, fun other found here arrives => ?_,
    fun other found here arrives => ?_, fun other found here arrives => ?_, ?_⟩
  · obtain ⟨before, at_, arrives', equal⟩ := old here arrives
    exact equal ▸ served.distinct other before at_ arrives'
  · obtain ⟨before, at_, arrives', equal⟩ := old here arrives
    exact equal ▸ served.seen other before at_ arrives'
  · obtain ⟨before, at_, arrives', equal⟩ := old here arrives
    exact equal ▸ served.unserved other before at_ arrives'
  · intro one two first second here here' arrives arrives' key own own'
    obtain ⟨before, at_, arrived, equal⟩ := old here arrives
    obtain ⟨before', at', arrived', equal'⟩ := old here' arrives'
    exact served.apart one two before before' at_ at' arrived arrived' key (equal ▸ own) (equal' ▸ own')

theorem Once.serve (there : table[thread]? = some place) (arrived : early place) (late : ¬ early next) :
    Once early keys (table.set thread next) seen (done ++ keys place) := by
  refine ⟨?_, ?_, ?_, ?_, ?_, ?_⟩
  · refine nodup_append.mpr ⟨served.once, served.distinct thread place there arrived, ?_⟩
    rintro key before _ own rfl
    exact served.unserved thread place there arrived key own before
  · intro key mem
    rcases mem_append.mp mem with before | own
    · exact served.known key before
    · exact served.seen thread place there arrived key own
  · exact served.distinct.move fun arrives => absurd arrives late
  · exact served.seen.move fun arrives => absurd arrives late
  · intro other found here arrives key own
    rcases getElem?_set_cases here with ⟨rfl, rfl⟩ | ⟨different, before⟩
    · exact absurd arrives late
    · intro mem
      rcases mem_append.mp mem with earlier | own'
      · exact served.unserved other found before arrives key own earlier
      · exact different (served.apart other thread found place before there arrives arrived key own own')
  · intro one two first second here here' arrives arrives' key own own'
    rcases getElem?_set_cases here with ⟨rfl, rfl⟩ | ⟨-, before⟩
    · exact absurd arrives late
    · rcases getElem?_set_cases here' with ⟨rfl, rfl⟩ | ⟨-, before'⟩
      · exact absurd arrives' late
      · exact served.apart one two first second before before' arrives arrives' key own own'

end

end Once

end TinyDSV41.Lib.Threads
