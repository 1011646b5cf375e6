/-
**A mailbox whose keys are a window of consecutive numbers.**

A producer appends rows under increasing keys, a consumer is handed the oldest row it has not seen,
and rows leave from the old end once they are settled. Three cursors describe the mailbox:
`settled ≤ handed ≤ issued`. The rows are those with keys in `[settled, issued)`, and a row has been
handed out exactly when its key is below `handed`.

* `Window.push`, `Window.deliver`, `Window.settle` — the three operations move one cursor each.
* `Window.firstUndelivered_eq` — the row handed out next has key `handed`.
* `Window.isDeliveredPrefix_iff` — a list of keys is a delivered prefix exactly when it is
  `settled, settled + 1, …` and stays below `handed`.
-/

import Mathlib.Data.List.Sort
import Mathlib.Data.List.Range

namespace TinyDSV41.Lib

open List

/-- One row of a mailbox: the item and whether the consumer has been handed it. -/
structure Row (Item : Type) where
  item : Item
  delivered : Bool
deriving DecidableEq

/-- A mailbox: rows under their keys, in the order of insertion. -/
abbrev Mailbox (Item : Type) := List (ℕ × Row Item)

namespace Mailbox

def keys (box : Mailbox Item) : List ℕ := box.map Prod.fst

def sortedKeys (box : Mailbox Item) : List ℕ := box.keys.insertionSort (· ≤ ·)

def sorted (box : Mailbox Item) : Mailbox Item :=
  box.insertionSort fun first second => first.1 ≤ second.1

def firstUndelivered (box : Mailbox Item) : Option (ℕ × Row Item) :=
  box.find? fun entry => !entry.2.delivered

def deliver (box : Mailbox Item) (key : ℕ) : Mailbox Item :=
  box.map fun entry => if entry.1 = key then (entry.1, { entry.2 with delivered := true }) else entry

def row? (box : Mailbox Item) (key : ℕ) : Option (Row Item) :=
  (box.find? fun entry => entry.1 = key).map Prod.snd

def settle (box : Mailbox Item) (ids : List ℕ) : Mailbox Item :=
  box.filter fun entry => entry.1 ∉ ids

/-- The keys are distinct, are the oldest ones in order, and each row has been handed out. -/
def isDeliveredPrefix (box : Mailbox Item) (ids : List ℕ) : Bool :=
  ids.Nodup && ids == box.sortedKeys.take ids.length &&
    ids.all fun key => (box.row? key).any (·.delivered)

end Mailbox

/-- Two windows that meet are one. -/
theorem range'_join {low middle high : ℕ} (first : low ≤ middle) (second : middle ≤ high) :
    range' low (middle - low) ++ range' middle (high - middle) = range' low (high - low) := by
  obtain ⟨count, rfl⟩ := Nat.exists_eq_add_of_le first
  rw [Nat.add_sub_cancel_left, range'_append_1]
  congr 1
  omega

/-- The mailbox holds the keys `[settled, issued)`, and the rows below `handed` were handed out. -/
structure Window {Item : Type} (box : Mailbox Item) (settled handed issued : ℕ) : Prop where
  keys : box.keys = range' settled (issued - settled)
  low : settled ≤ handed
  high : handed ≤ issued
  marks : ∀ entry ∈ box, entry.2.delivered = decide (entry.1 < handed)

namespace Window

variable {Item : Type} {box : Mailbox Item} {settled handed issued : ℕ}

theorem mem_keys (window : Window box settled handed issued) {key : ℕ} :
    key ∈ box.keys ↔ settled ≤ key ∧ key < issued := by
  rw [window.keys, mem_range'_1]
  omega

variable {entry : ℕ × Row Item}

section

variable (window : Window box settled handed issued)
include window

theorem mem_bounds (mem : entry ∈ box) : settled ≤ entry.1 ∧ entry.1 < issued :=
  window.mem_keys.mp (mem_map_of_mem mem)

theorem length_eq : box.length = issued - settled := by
  have := congrArg length window.keys
  simpa [Mailbox.keys] using this

theorem pairwise_lt : box.Pairwise fun first second => first.1 < second.1 := by
  have increasing : box.keys.Pairwise (· < ·) := by
    rw [window.keys]
    exact pairwise_lt_range'
  exact pairwise_map.mp increasing

theorem sortedKeys_eq : box.sortedKeys = range' settled (issued - settled) := by
  unfold Mailbox.sortedKeys
  rw [window.keys]
  have increasing : (range' settled (issued - settled)).Pairwise (· < ·) :=
    pairwise_lt_range'
  exact (increasing.imp fun less => less.le).insertionSort_eq

theorem sorted_eq : box.sorted = box :=
  (window.pairwise_lt.imp fun less => less.le).insertionSort_eq

theorem eq_of_key_eq {first second : ℕ × Row Item} (left : first ∈ box) (right : second ∈ box)
    (same : first.1 = second.1) : first = second := by
  have distinct : box.keys.Nodup := by
    rw [window.keys]
    exact nodup_range'
  exact inj_on_of_nodup_map distinct left right same

theorem row?_eq (mem : entry ∈ box) : box.row? entry.1 = some entry.2 := by
  unfold Mailbox.row?
  cases found : box.find? (fun candidate => candidate.1 = entry.1) with
  | none =>
    have := find?_eq_none.mp found entry mem
    simp at this
  | some candidate =>
    have inside := mem_of_find?_eq_some found
    have same : candidate.1 = entry.1 := by simpa using find?_some found
    rw [window.eq_of_key_eq inside mem same]
    rfl

end

/-! ### Handing out -/

theorem firstUndelivered_eq_none_iff (window : Window box settled handed issued) :
    box.firstUndelivered = none ↔ handed = issued := by
  unfold Mailbox.firstUndelivered
  rw [find?_eq_none]
  constructor
  · intro all
    by_contra different
    have present : handed ∈ box.keys := window.mem_keys.mpr ⟨window.low, by
      have := window.high
      omega⟩
    obtain ⟨entry, mem, same⟩ := mem_map.mp present
    have marked := all entry mem
    rw [window.marks entry mem, same] at marked
    simp at marked
  · intro caught entry mem
    have below := (window.mem_bounds mem).2
    rw [window.marks entry mem]
    simp only [Bool.not_eq_eq_eq_not, Bool.not_true, decide_eq_false_iff_not, not_not]
    omega

theorem firstUndelivered_eq (window : Window box settled handed issued)
    (found : box.firstUndelivered = some entry) :
    entry ∈ box ∧ entry.1 = handed ∧ handed < issued := by
  have member := mem_of_find?_eq_some found
  have fresh : ¬ entry.1 < handed := by
    have := find?_some found
    rw [window.marks entry member] at this
    simpa using this
  have bounds := window.mem_bounds member
  refine ⟨member, ?_, by omega⟩
  -- The row under `handed` is not marked, so the search cannot have passed it.
  have present : handed ∈ box.keys := window.mem_keys.mpr ⟨window.low, by omega⟩
  obtain ⟨target, inside, same⟩ := mem_map.mp present
  by_contra different
  obtain ⟨-, before, after, split, marked⟩ := find?_eq_some_iff_append.mp found
  have ordered := window.pairwise_lt
  rw [split] at ordered inside
  rcases mem_append.mp inside with early | late
  · have := marked target early
    rw [window.marks target (by rw [split]; exact inside), same] at this
    simp at this
  · rcases mem_cons.mp late with here | later
    · exact different (by rw [← here, same])
    · have := (pairwise_cons.mp (pairwise_append.mp ordered).2.1).1 target later
      omega

theorem keys_deliver (key : ℕ) : (box.deliver key).keys = box.keys := by
  unfold Mailbox.deliver Mailbox.keys
  rw [map_map]
  refine map_congr_left fun entry _ => ?_
  simp only [Function.comp_apply]
  split_ifs <;> rfl

theorem deliver (window : Window box settled handed issued) (room : handed < issued) :
    Window (box.deliver handed) settled (handed + 1) issued where
  keys := by rw [keys_deliver, window.keys]
  low := window.low.trans (Nat.le_succ _)
  high := room
  marks := by
    intro entry mem
    obtain ⟨source, inside, rfl⟩ := mem_map.mp mem
    by_cases same : source.1 = handed
    · simp [same]
    · rw [if_neg same, window.marks source inside]
      simp only [decide_eq_decide]
      omega

/-! ### Appending -/

theorem push (window : Window box settled handed issued) (item : Item) :
    Window (box ++ [(issued, ⟨item, false⟩)]) settled handed (issued + 1) where
  keys := by
    have bound := window.low.trans window.high
    have last : settled + (issued - settled) = issued := by omega
    have length : issued + 1 - settled = (issued - settled) + 1 := by omega
    rw [length, range'_concat, Nat.one_mul, last, ← window.keys]
    simp [Mailbox.keys]
  low := window.low
  high := window.high.trans (Nat.le_succ _)
  marks := by
    intro entry mem
    rcases mem_append.mp mem with old | new
    · exact window.marks entry old
    · rw [mem_singleton.mp new]
      have := window.high
      simp only [Bool.false_eq, decide_eq_false_iff_not, not_lt]
      exact this

/-! ### Settling -/

/-- A list of keys is a delivered prefix exactly when it runs from the settled cursor and stays
below the handed one. -/
theorem isDeliveredPrefix_iff (window : Window box settled handed issued) (ids : List ℕ) :
    box.isDeliveredPrefix ids = true ↔
      ids = range' settled ids.length ∧ settled + ids.length ≤ handed := by
  unfold Mailbox.isDeliveredPrefix
  rw [Bool.and_eq_true, Bool.and_eq_true, decide_eq_true_eq, beq_iff_eq, window.sortedKeys_eq,
    all_eq_true]
  constructor
  · rintro ⟨⟨-, oldest⟩, marked⟩
    have short : ids.length ≤ issued - settled := by
      have := congrArg length oldest
      simp only [length_take, length_range'] at this
      omega
    rw [take_range'_of_length_ge short] at oldest
    refine ⟨oldest, ?_⟩
    rcases Nat.eq_zero_or_pos ids.length with zero | positive
    · rw [zero]
      exact window.low
    · -- The last key of the list has been handed out.
      have last : settled + ids.length - 1 ∈ ids := by
        rw [oldest, length_range', mem_range'_1]
        omega
      have present : settled + ids.length - 1 ∈ box.keys := window.mem_keys.mpr ⟨by omega, by omega⟩
      obtain ⟨entry, mem, same⟩ := mem_map.mp present
      have seen := marked _ last
      rw [← same, window.row?_eq mem, Option.any_some, window.marks entry mem, same,
        decide_eq_true_eq] at seen
      omega
  · rintro ⟨oldest, below⟩
    have high := window.high
    have short : ids.length ≤ issued - settled := by omega
    refine ⟨⟨by rw [oldest]; exact nodup_range', ?_⟩, ?_⟩
    · rw [take_range'_of_length_ge short]
      exact oldest
    · intro key inside
      rw [oldest, mem_range'_1] at inside
      have present : key ∈ box.keys := window.mem_keys.mpr ⟨inside.1, by omega⟩
      obtain ⟨entry, mem, rfl⟩ := mem_map.mp present
      rw [window.row?_eq mem, Option.any_some, window.marks entry mem, decide_eq_true_eq]
      omega

theorem settle (window : Window box settled handed issued) {count : ℕ}
    (below : settled + count ≤ handed) :
    Window (box.settle (range' settled count)) (settled + count) handed issued where
  keys := by
    have high := window.high
    have split : issued - settled = count + (issued - (settled + count)) := by omega
    have keep : (box.settle (range' settled count)).keys
        = box.keys.filter fun key => key ∉ range' settled count := by
      unfold Mailbox.settle Mailbox.keys
      rw [filter_map]
      rfl
    rw [keep, window.keys, split, ← range'_append_1, filter_append]
    have gone : (range' settled count).filter (fun key => key ∉ range' settled count) = [] := by
      rw [filter_eq_nil_iff]
      intro key inside
      simp [inside]
    have kept : (range' (settled + count) (issued - (settled + count))).filter
        (fun key => key ∉ range' settled count)
        = range' (settled + count) (issued - (settled + count)) := by
      rw [filter_eq_self]
      intro key inside
      rw [mem_range'_1] at inside
      simp only [mem_range'_1, decide_eq_true_eq]
      omega
    rw [gone, kept, nil_append]
  low := below
  high := window.high
  marks := fun entry mem => window.marks entry (mem_of_mem_filter mem)

end Window

end TinyDSV41.Lib
