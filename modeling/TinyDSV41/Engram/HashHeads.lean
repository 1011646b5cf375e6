/-
**The heads of an n-gram hash.**

Each head has a prime and an interval of rows of its layer's table. No prime is used twice.

* `isPrime`, `nextPrime` — trial division, and the next prime that was not used yet.
* `takeHeads` — the heads of a layer, one after the other.
* `hashLayers` — the heads of the selected layers, after the primes of all layers listed before.
* `Separate` — the intervals of a layer are disjoint and inside its table.
-/

import TinyDSV41.Lib.Checks
import Mathlib.Data.Nat.Prime.Infinite
import Mathlib.Data.List.Pairwise
import Mathlib.Algebra.Order.BigOperators.Group.List
import Mathlib.Tactic.Linarith

namespace TinyDSV41.Engram.Hashing

open Lib List

/-- The loop of `_is_prime`. -/
def trial (value divisor : ℕ) : Bool :=
  if divisor * divisor ≤ value then
    if value % divisor = 0 then false else trial value (divisor + 2)
  else true
termination_by value + 1 - divisor
decreasing_by
  have : divisor ≤ value := (Nat.le_mul_self divisor).trans ‹_›
  omega

/-- `_is_prime` -/
def isPrime (value : ℕ) : Bool := if value < 2 ∨ value % 2 = 0 then decide (value = 2) else trial value 3

theorem trial_iff {value divisor : ℕ} (large : 2 ≤ divisor) :
    trial value divisor = true ↔ Nat.minFacAux value divisor = value := by
  induction divisor using trial.induct value with unfold trial Nat.minFacAux
  | case1 divisor small divides =>
    rw [if_pos small, if_pos divides, if_neg (not_lt.mpr small), if_pos (Nat.dvd_of_mod_eq_zero divides)]
    refine ⟨fun same => absurd same Bool.false_ne_true, fun same => ?_⟩
    subst same
    exact absurd small (by nlinarith)
  | case2 divisor small rest known =>
    rw [if_pos small, if_neg rest, if_neg (not_lt.mpr small), if_neg fun divides => rest (Nat.mod_eq_zero_of_dvd divides)]
    exact known (by omega)
  | case3 divisor done =>
    rw [if_neg done, if_pos (not_le.mp done)]
    exact ⟨fun _ => rfl, fun _ => rfl⟩

theorem isPrime_iff (value : ℕ) : isPrime value = true ↔ value.Prime := by
  unfold isPrime
  by_cases even : value < 2 ∨ value % 2 = 0
  · rw [if_pos even, decide_eq_true_eq]
    constructor
    · rintro rfl
      exact Nat.prime_two
    · intro prime
      rcases even with small | divides
      · exact absurd prime.two_le (not_le.mpr small)
      · exact ((Nat.prime_dvd_prime_iff_eq Nat.prime_two prime).mp (Nat.dvd_of_mod_eq_zero divides)).symm
  · obtain ⟨large, odd⟩ := not_or.mp even
    have skip : Nat.minFac value = Nat.minFacAux value 3 := by
      rw [Nat.minFac_eq, if_neg fun divides => odd (Nat.mod_eq_zero_of_dvd divides)]
    rw [if_neg even, trial_iff (by decide), ← skip, Nat.prime_def_minFac]
    exact ⟨fun same => ⟨not_lt.mp large, same⟩, And.right⟩

theorem exists_next (value : ℕ) (used : List ℕ) : ∃ next, value < next ∧ next ∉ used ∧ isPrime next = true := by
  obtain ⟨prime, above, isPrime_⟩ := Nat.exists_infinite_primes (value + used.sum + 1)
  refine ⟨prime, by omega, fun mem => ?_, (isPrime_iff prime).mpr isPrime_⟩
  have := le_sum_of_mem mem
  omega

/-- `_next_prime`: numbers are tried one after the other. -/
def nextPrime (value : ℕ) (used : List ℕ) : ℕ := Nat.find (exists_next value used)

structure Head where
  prime : ℕ
  offset : ℕ
  deriving DecidableEq

/-- The heads of a layer: each with the next prime that was not used, and with the rows after those of the heads
before it. -/
def takeHeads : ℕ → ℕ → ℕ → List ℕ → List Head
  | 0, _, _, _ => []
  | count + 1, current, offset, used =>
    let prime := nextPrime current used
    ⟨prime, offset⟩ :: takeHeads count prime (offset + prime) (prime :: used)

def rowsNeeded (heads : List Head) : ℕ := (heads.map Head.prime).sum

/-- The heads of the selected layers. The primes of a layer are used whether it is selected or not. -/
def hashLayers (count start : ℕ) (selected : List ℤ) : List (ℤ × ℤ) → List ℕ → Except String (List (List Head))
  | [], _ => .ok []
  | (layerId, tableSize) :: rest, used => do
      let heads := takeHeads count start 0 used
      let rows := rowsNeeded heads
      require ((rows : ℤ) ≤ tableSize) s!"engram table needs {rows} rows, got {tableSize}"
      let later ← hashLayers count start selected rest ((heads.map Head.prime).reverse ++ used)
      if layerId ∈ selected then .ok (heads :: later) else .ok later

variable {count current start offset value : ℕ} {used : List ℕ} {selected : List ℤ} {head : Head}

theorem nextPrime_spec (value : ℕ) (used : List ℕ) :
    value < nextPrime value used ∧ nextPrime value used ∉ used ∧ (nextPrime value used).Prime := by
  have found := Nat.find_spec (exists_next value used)
  exact ⟨found.1, found.2.1, (isPrime_iff _).mp found.2.2⟩

theorem nextPrime_eq {value next : ℕ} {used : List ℕ} (above : value < next) (fresh : next ∉ used) (prime : next.Prime)
    (skipped : ∀ other, value < other → other < next → other ∈ used ∨ ¬ other.Prime) : nextPrime value used = next := by
  refine (Nat.find_eq_iff (exists_next value used)).mpr ⟨⟨above, fresh, (isPrime_iff next).mpr prime⟩, ?_⟩
  rintro other before ⟨after, unused, found⟩
  rcases skipped other after before with mem | composite
  · exact unused mem
  · exact composite ((isPrime_iff other).mp found)

theorem takeHeads_prime (mem : head ∈ takeHeads count current offset used) : head.prime.Prime := by
  induction count generalizing current offset used with
  | zero => cases mem
  | succ count known =>
    rcases mem_cons.mp mem with rfl | later
    · exact (nextPrime_spec current used).2.2
    · exact known later

theorem takeHeads_fresh (mem : head ∈ takeHeads count current offset used) : head.prime ∉ used := by
  induction count generalizing current offset used with
  | zero => cases mem
  | succ count known =>
    rcases mem_cons.mp mem with rfl | later
    · exact (nextPrime_spec current used).2.1
    · exact fun there => known later (mem_cons_of_mem _ there)

theorem length_takeHeads : (takeHeads count current offset used).length = count := by
  induction count generalizing current offset used with
  | zero => rfl
  | succ count known =>
    unfold takeHeads
    rw [length_cons, known]

theorem rowsNeeded_succ : rowsNeeded (takeHeads (count + 1) current offset used) = nextPrime current used
    + rowsNeeded (takeHeads count (nextPrime current used) (offset + nextPrime current used) (nextPrime current used :: used)) :=
  sum_cons

theorem takeHeads_rows (mem : head ∈ takeHeads count current offset used) :
    offset ≤ head.offset ∧ head.offset + head.prime ≤ offset + rowsNeeded (takeHeads count current offset used) := by
  induction count generalizing current offset used with
  | zero => cases mem
  | succ count known =>
    rw [rowsNeeded_succ]
    rcases mem_cons.mp mem with rfl | later
    · exact ⟨le_rfl, by dsimp only; omega⟩
    · obtain ⟨low, high⟩ := known later
      exact ⟨by omega, by omega⟩

theorem takeHeads_apart : (takeHeads count current offset used).Pairwise
    fun one two => one.offset + one.prime ≤ two.offset := by
  induction count generalizing current offset used with
  | zero => exact .nil
  | succ count known => exact .cons (fun head mem => (takeHeads_rows mem).1) known

/-- The intervals of heads are disjoint and inside a table. -/
structure Separate (heads : List Head) (rows : ℤ) : Prop where
  positive : ∀ head ∈ heads, 0 < head.prime
  inside : ∀ head ∈ heads, ((head.offset + head.prime : ℕ) : ℤ) ≤ rows
  apart : heads.Pairwise fun one two => one.offset + one.prime ≤ two.offset

theorem takeHeads_separate {rows : ℤ} (enough : (rowsNeeded (takeHeads count start 0 used) : ℤ) ≤ rows) :
    Separate (takeHeads count start 0 used) rows where
  positive head member := (takeHeads_prime member).pos
  inside head member := by
    have high := (takeHeads_rows member).2
    omega
  apart := takeHeads_apart

/-- **Every selected layer has the heads that come after those of the layers before it.** -/
theorem hashLayers_heads {entries : List (ℤ × ℤ)} {layers : List (List Head)}
    (built : hashLayers count start selected entries used = .ok layers) :
    List.Forall₂ (fun (entry : ℤ × ℤ) heads => ∃ before, heads = takeHeads count start 0 before
      ∧ (rowsNeeded heads : ℤ) ≤ entry.2) (entries.filter fun entry => entry.1 ∈ selected) layers := by
  induction entries generalizing used layers with
  | nil =>
    cases built
    exact .nil
  | cons entry entries known =>
    unfold hashLayers at built
    obtain ⟨_, enough, built⟩ := bind_eq_ok.mp built
    rw [require_eq_ok] at enough
    obtain ⟨later, rest, built⟩ := bind_eq_ok.mp built
    rw [filter_cons]
    by_cases mine : entry.1 ∈ selected
    · rw [if_pos mine] at built
      cases built
      rw [if_pos (decide_eq_true mine)]
      exact .cons ⟨used, rfl, enough⟩ (known rest)
    · rw [if_neg mine] at built
      cases built
      rw [if_neg (by simpa using mine)]
      exact known rest

end TinyDSV41.Engram.Hashing
