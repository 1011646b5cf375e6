/-
**A ledger of reservations.**

Each reservation has an identifier and a demand on every account. It is charged once and leaves the
ledger in one of two ways: it is released, which gives its demand back, or it is quarantined, which
keeps the demand reserved for good. The ledger carries the running totals a program keeps and, as
history, the identifiers in the order of the three operations.

* `Balanced` — the totals are the sums of the open and the lost demands, and every charge is open,
  released or lost, exactly one of them.
* `Balanced.charge`, `Balanced.release`, `Balanced.quarantine` — the operations keep the balance.
* `Balanced.closed` — with nothing open, what is reserved is what is quarantined.
-/

import Mathlib.Algebra.Order.BigOperators.Group.List
import Mathlib.Algebra.Order.Group.Defs
import Mathlib.Tactic.Abel

set_option linter.unusedSectionVars false

namespace TinyDSV41.Lib

open List

/-- Totals by account, and the history of the reservations. -/
structure Ledger (Id Account Amount : Type) where
  reserved : Account → Amount
  peak : Account → Amount
  quarantined : Account → Amount
  charged : List Id
  released : List Id
  lost : List Id

namespace Ledger

variable {Id Account Amount : Type}

section Operations

variable [AddCommGroup Amount] [LinearOrder Amount]

def empty : Ledger Id Account Amount where
  reserved _ := 0
  peak _ := 0
  quarantined _ := 0
  charged := []
  released := []
  lost := []

def charge (demand : Id → Account → Amount) (ledger : Ledger Id Account Amount) (id : Id) :
    Ledger Id Account Amount :=
  { ledger with
    reserved := fun account => ledger.reserved account + demand id account
    peak := fun account => max (ledger.peak account) (ledger.reserved account + demand id account)
    charged := ledger.charged ++ [id] }

def release (demand : Id → Account → Amount) (ledger : Ledger Id Account Amount) (id : Id) :
    Ledger Id Account Amount :=
  { ledger with
    reserved := fun account => ledger.reserved account - demand id account
    peak := fun account => max (ledger.peak account) (ledger.reserved account - demand id account)
    released := ledger.released ++ [id] }

def quarantine (demand : Id → Account → Amount) (ledger : Ledger Id Account Amount) (id : Id) :
    Ledger Id Account Amount :=
  { ledger with
    quarantined := fun account => ledger.quarantined account + demand id account
    lost := ledger.lost ++ [id] }

end Operations

/-- The sum of the demands of a list of reservations. -/
def total [AddCommGroup Amount] (demand : Id → Account → Amount) (ids : List Id)
    (account : Account) : Amount :=
  (ids.map fun id => demand id account).sum

section Total

variable [AddCommGroup Amount] {demand : Id → Account → Amount}

@[simp] theorem total_nil (account : Account) : total demand [] account = 0 := rfl

@[simp] theorem total_cons (id : Id) (ids : List Id) (account : Account) :
    total demand (id :: ids) account = demand id account + total demand ids account := by
  simp [total]

@[simp] theorem total_append (first second : List Id) (account : Account) :
    total demand (first ++ second) account
      = total demand first account + total demand second account := by
  simp [total]

theorem total_perm {first second : List Id} (same : first.Perm second) (account : Account) :
    total demand first account = total demand second account :=
  (same.map _).sum_eq

end Total

section Histories

variable [AddCommGroup Amount] [LinearOrder Amount] {demand : Id → Account → Amount}

section

variable (ids : List Id) (ledger : Ledger Id Account Amount)
include ids ledger

theorem history_chargeAll : (ids.foldl (Ledger.charge demand) ledger).charged = ledger.charged ++ ids ∧
      (ids.foldl (Ledger.charge demand) ledger).lost = ledger.lost := by
  induction ids generalizing ledger with
  | nil => simp
  | cons id rest ih =>
    obtain ⟨charged, lost⟩ := ih (ledger.charge demand id)
    rw [foldl_cons, charged, lost]
    simp [charge]

theorem history_releaseAll : (ids.foldl (Ledger.release demand) ledger).charged = ledger.charged ∧
      (ids.foldl (Ledger.release demand) ledger).lost = ledger.lost := by
  induction ids generalizing ledger with
  | nil => simp
  | cons id rest ih => exact ih (ledger.release demand id)

theorem history_quarantineAll :
    (ids.foldl (Ledger.quarantine demand) ledger).charged = ledger.charged := by
  induction ids generalizing ledger with
  | nil => simp
  | cons id rest ih => exact ih (ledger.quarantine demand id)

end

end Histories

/-- The totals are those of the open and the lost reservations; each reservation was charged once and
is open, released or lost. -/
structure Balanced [AddCommGroup Amount] (demand : Id → Account → Amount)
    (ledger : Ledger Id Account Amount) (outstanding : List Id) : Prop where
  once : ledger.charged.Nodup
  split : ledger.charged.Perm (outstanding ++ ledger.released ++ ledger.lost)
  reserved : ∀ account, ledger.reserved account
    = total demand outstanding account + total demand ledger.lost account
  quarantined : ∀ account, ledger.quarantined account = total demand ledger.lost account

/-- No account exceeds its limit; an account without a limit is never full. -/
def Within [LE Amount] (limit : Account → Option Amount) (ledger : Ledger Id Account Amount) :
    Prop :=
  ∀ account bound, limit account = some bound → ledger.reserved account ≤ bound

variable {ids : List Id} {id : Id}

namespace Balanced

variable [AddCommGroup Amount] {demand : Id → Account → Amount}
  {ledger : Ledger Id Account Amount} {outstanding : List Id}

section

variable (balanced : Balanced demand ledger outstanding)
include balanced

theorem perm {other : List Id} (same : outstanding.Perm other) : Balanced demand ledger other where
  once := balanced.once
  split := balanced.split.trans ((same.append_right _).append_right _)
  reserved account := by
    rw [balanced.reserved, total_perm same]
  quarantined := balanced.quarantined

end

theorem closed (balanced : Balanced demand ledger []) : ledger.reserved = ledger.quarantined ∧
      ledger.charged.Perm (ledger.released ++ ledger.lost) := by
  constructor
  · funext account
    rw [balanced.reserved, balanced.quarantined, total_nil, zero_add]
  · exact balanced.split

section Ordered

variable [LinearOrder Amount]

theorem empty : Balanced demand (Ledger.empty : Ledger Id Account Amount) [] where
  once := nodup_nil
  split := by simp [Ledger.empty]
  reserved account := by simp [Ledger.empty]
  quarantined account := by simp [Ledger.empty]

theorem charge (balanced : Balanced demand ledger outstanding) (fresh : id ∉ ledger.charged) :
    Balanced demand (ledger.charge demand id) (id :: outstanding) where
  once := by
    show (ledger.charged ++ [id]).Nodup
    rw [nodup_append]
    refine ⟨balanced.once, by simp, ?_⟩
    rintro other old _ new rfl
    rw [mem_singleton.mp new] at old
    exact fresh old
  split := by
    show (ledger.charged ++ [id]).Perm (id :: outstanding ++ ledger.released ++ ledger.lost)
    refine (perm_append_singleton _ _).trans ?_
    simpa using balanced.split
  reserved account := by
    show ledger.reserved account + demand id account = _
    rw [balanced.reserved, total_cons]
    show _ = _ + total demand ledger.lost account
    abel
  quarantined := balanced.quarantined

theorem release (balanced : Balanced demand ledger (id :: outstanding)) :
    Balanced demand (ledger.release demand id) outstanding where
  once := balanced.once
  split := by
    refine balanced.split.trans ?_
    have moved : (id :: outstanding ++ ledger.released).Perm
        (outstanding ++ (ledger.released ++ [id])) := by
      rw [← append_assoc]
      exact (perm_append_singleton id (outstanding ++ ledger.released)).symm
    exact moved.append_right _
  reserved account := by
    show ledger.reserved account - demand id account = _
    rw [balanced.reserved, total_cons]
    abel
  quarantined := balanced.quarantined

theorem quarantine (balanced : Balanced demand ledger (id :: outstanding)) :
    Balanced demand (ledger.quarantine demand id) outstanding where
  once := balanced.once
  split := by
    show ledger.charged.Perm (outstanding ++ ledger.released ++ (ledger.lost ++ [id]))
    refine balanced.split.trans ?_
    rw [← append_assoc]
    exact (perm_append_singleton id (outstanding ++ ledger.released ++ ledger.lost)).symm
  reserved account := by
    show ledger.reserved account = _ + total demand (ledger.lost ++ [id]) account
    rw [balanced.reserved, total_cons, total_append, total_cons, total_nil]
    abel
  quarantined account := by
    show ledger.quarantined account + demand id account = total demand (ledger.lost ++ [id]) account
    rw [balanced.quarantined, total_append, total_cons, total_nil, add_zero]

theorem chargeAll (balanced : Balanced demand ledger outstanding) (distinct : ids.Nodup)
    (fresh : ∀ id ∈ ids, id ∉ ledger.charged) :
    Balanced demand (ids.foldl (Ledger.charge demand) ledger) (ids ++ outstanding) := by
  induction ids generalizing ledger outstanding with
  | nil => exact balanced
  | cons id rest ih =>
    obtain ⟨absent, others⟩ := nodup_cons.mp distinct
    have next := ih (balanced.charge (fresh id mem_cons_self)) others ?_
    · exact next.perm perm_middle
    · intro other mem
      show other ∉ ledger.charged ++ [id]
      rw [mem_append, mem_singleton, not_or]
      refine ⟨fresh other (mem_cons_of_mem _ mem), ?_⟩
      rintro rfl
      exact absent mem

theorem releaseAll (balanced : Balanced demand ledger (ids ++ outstanding)) :
    Balanced demand (ids.foldl (Ledger.release demand) ledger) outstanding := by
  induction ids generalizing ledger with
  | nil => exact balanced
  | cons id rest ih => exact ih (release balanced)

theorem quarantineAll (balanced : Balanced demand ledger (ids ++ outstanding)) :
    Balanced demand (ids.foldl (Ledger.quarantine demand) ledger) outstanding := by
  induction ids generalizing ledger with
  | nil => exact balanced
  | cons id rest ih => exact ih (quarantine balanced)

end Ordered

end Balanced

section Limits

variable [AddCommGroup Amount] [LinearOrder Amount] [IsOrderedAddMonoid Amount]
  {demand : Id → Account → Amount} {ledger : Ledger Id Account Amount}
  {limit : Account → Option Amount}

theorem total_nonneg (positive : ∀ id account, 0 ≤ demand id account) (ids : List Id)
    (account : Account) : 0 ≤ total demand ids account := by
  refine sum_nonneg ?_
  intro amount mem
  obtain ⟨id, -, rfl⟩ := mem_map.mp mem
  exact positive id account

theorem reserved_chargeAll (ids : List Id) (account : Account) :
    (ids.foldl (Ledger.charge demand) ledger).reserved account
      = ledger.reserved account + total demand ids account := by
  induction ids generalizing ledger with
  | nil => simp
  | cons id rest ih =>
    rw [foldl_cons, ih, total_cons]
    show ledger.reserved account + demand id account + _ = _
    rw [add_assoc]

theorem Within.chargeAll
    (fits : ∀ account bound, limit account = some bound → ledger.reserved account + total demand ids
      account ≤ bound) :
    Within limit (ids.foldl (Ledger.charge demand) ledger) := by
  intro account bound limited
  rw [reserved_chargeAll]
  exact fits account bound limited

theorem Within.charge
    (fits : ∀ account bound, limit account = some bound → ledger.reserved account + demand id account ≤
      bound) :
    Within limit (ledger.charge demand id) := fits

section

variable (within : Within limit ledger)
include within

theorem Within.release (positive : ∀ account, 0 ≤ demand id account) :
    Within limit (ledger.release demand id) := by
  intro account bound limited
  exact (sub_le_self _ (positive account)).trans (within account bound limited)

theorem Within.releaseAll (positive : ∀ id account, 0 ≤ demand id account) :
    Within limit (ids.foldl (Ledger.release demand) ledger) := by
  induction ids generalizing ledger with
  | nil => exact within
  | cons id rest ih => exact ih (within.release (positive id))

theorem Within.quarantine (id : Id) : Within limit (ledger.quarantine demand id) := within

theorem Within.quarantineAll (ids : List Id) :
    Within limit (ids.foldl (Ledger.quarantine demand) ledger) := by
  induction ids generalizing ledger with
  | nil => exact within
  | cons id rest ih => exact ih (within.quarantine id)

end

end Limits

end Ledger

end TinyDSV41.Lib
