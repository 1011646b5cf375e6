/-
**A dictionary that keeps the order of its keys.**

The items of a table stand in the order in which they were added, and no key stands twice. A key is
added or moved at the end; a value is changed in its place.

* `OrderedTable.mem_items` — the items are what the table looks up.
* `get?_remove`, `get?_push`, `get?_modify`, `get?_moveToEnd` — one equation for each operation.
* `total_remove`, `total_push`, `total_modify`, `total_moveToEnd` — how a sum over the values changes.
* `collect_some`, `get?_collect` — a table with a value for each of some keys.
-/

import Mathlib.Algebra.BigOperators.Group.List.Basic
import Mathlib.Data.List.Nodup
import Mathlib.Algebra.GroupWithZero.Nat

namespace TinyDSV41.Lib

open List

structure OrderedTable (Key Value : Type) where
  items : List (Key × Value)
  distinct : (items.map Prod.fst).Nodup

namespace OrderedTable

variable {Key Value : Type} [DecidableEq Key]

def empty : OrderedTable Key Value := ⟨[], nodup_nil⟩

instance : EmptyCollection (OrderedTable Key Value) := ⟨empty⟩

def get? (table : OrderedTable Key Value) (key : Key) : Option Value := table.items.lookup key

def length (table : OrderedTable Key Value) : ℕ := table.items.length

def values (table : OrderedTable Key Value) : List Value := table.items.map Prod.snd

def total (table : OrderedTable Key Value) (amount : Value → ℕ) : ℕ := (table.values.map amount).sum

def remove (table : OrderedTable Key Value) (key : Key) : OrderedTable Key Value where
  items := table.items.filter fun item => item.1 ≠ key
  distinct := table.distinct.sublist (filter_sublist.map Prod.fst)

def push (table : OrderedTable Key Value) (key : Key) (value : Value) : OrderedTable Key Value where
  items := (table.remove key).items ++ [(key, value)]
  distinct := by
    rw [map_append, map_singleton]
    refine nodup_append.mpr ⟨(table.remove key).distinct, nodup_singleton key, ?_⟩
    rintro first before second last rfl
    obtain ⟨item, member, rfl⟩ := mem_map.mp before
    have other := (mem_filter.mp member).2
    rw [mem_singleton] at last
    simp [last] at other

def modify (table : OrderedTable Key Value) (key : Key) (change : Value → Value) :
    OrderedTable Key Value where
  items := table.items.map fun item => (item.1, if item.1 = key then change item.2 else item.2)
  distinct := by
    rw [map_map]
    exact table.distinct

def moveToEnd (table : OrderedTable Key Value) (key : Key) : OrderedTable Key Value :=
  match table.get? key with
  | some value => table.push key value
  | none => table

variable {table : OrderedTable Key Value} {key other : Key} {value : Value}

/-! ### Looking up -/

theorem mem_items : (key, value) ∈ table.items ↔ table.get? key = some value := by
  obtain ⟨items, distinct⟩ := table
  show (key, value) ∈ items ↔ items.lookup key = some value
  induction items with
  | nil => simp
  | cons item rest known =>
    obtain ⟨name, here⟩ := item
    rw [map_cons, nodup_cons] at distinct
    rw [lookup_cons, mem_cons]
    by_cases same : key = name
    · subst same
      have absent : (key, value) ∉ rest := fun mem =>
        distinct.1 (mem_map.mpr ⟨_, mem, rfl⟩)
      simp [absent, eq_comm]
    · have differs : (key == name) = false := beq_false_of_ne same
      rw [differs]
      simp only [Prod.mk.injEq, same, false_and, false_or]
      exact known distinct.2

variable {second : OrderedTable Key Value}

theorem get?_congr (same : ∀ value, (key, value) ∈ table.items ↔ (key, value) ∈ second.items) :
    table.get? key = second.get? key := by
  ext value
  rw [← mem_items, ← mem_items]
  exact same value

theorem get?_remove_self : (table.remove key).get? key = none := by
  rw [Option.eq_none_iff_forall_ne_some]
  intro value found
  have member := mem_items.mpr found
  simp [remove] at member

theorem get?_remove_ne (differs : other ≠ key) : (table.remove key).get? other = table.get? other := by
  refine get?_congr fun value => ?_
  simp [remove, differs]

theorem get?_remove : (table.remove key).get? other = if other = key then none else table.get? other := by
  split_ifs with same
  · rw [same, get?_remove_self]
  · exact get?_remove_ne same

theorem get?_push :
    (table.push key value).get? other = if other = key then some value else table.get? other := by
  split_ifs with same
  · rw [same, ← mem_items]
    exact mem_append_right _ (mem_singleton_self _)
  · refine (get?_congr fun found => ?_).trans (get?_remove_ne same)
    show (other, found) ∈ (table.remove key).items ++ [(key, value)] ↔ _
    simp [same]

theorem get?_push_self : (table.push key value).get? key = some value := by
  rw [get?_push, if_pos rfl]

theorem get?_push_ne (differs : other ≠ key) : (table.push key value).get? other = table.get? other := by
  rw [get?_push, if_neg differs]

/-- What stands under a key after a push is the new value, or was there. -/
theorem push_cases {found : Value} (after : (table.push key value).get? other = some found) :
    other = key ∧ found = value ∨ other ≠ key ∧ table.get? other = some found := by
  rw [get?_push] at after
  split_ifs at after with same
  · exact Or.inl ⟨same, (Option.some.inj after).symm⟩
  · exact Or.inr ⟨same, after⟩

theorem get?_push_keeps {found : Value} (absent : table.get? key = none)
    (there : table.get? other = some found) : (table.push key value).get? other = some found := by
  refine (get?_push_ne ?_).trans there
  rintro rfl
  rw [absent] at there
  cases there

variable {change : Value → Value}

theorem get?_modify : (table.modify key change).get? other
      = (table.get? other).map fun value => if other = key then change value else value := by
  ext found
  rw [← mem_items, Option.map_eq_some_iff]
  constructor
  · intro mem
    obtain ⟨⟨name, value⟩, there, same⟩ := mem_map.mp mem
    obtain ⟨rfl, rfl⟩ := Prod.mk.inj same
    exact ⟨value, mem_items.mp there, rfl⟩
  · rintro ⟨value, there, rfl⟩
    exact mem_map.mpr ⟨(other, value), mem_items.mpr there, rfl⟩

theorem get?_modify_some {found : Value} : (table.modify key change).get? other = some found ↔
      ∃ before, table.get? other = some before ∧
        found = if other = key then change before else before := by
  rw [get?_modify, Option.map_eq_some_iff]
  exact exists_congr fun before => and_congr_right fun _ => eq_comm

theorem get?_modify_ne (differs : other ≠ key) :
    (table.modify key change).get? other = table.get? other := by
  rw [get?_modify]
  simp [differs]

theorem get?_moveToEnd : (table.moveToEnd key).get? other = table.get? other := by
  unfold moveToEnd
  split
  case h_1 value found =>
    rw [get?_push]
    split_ifs with same
    · rw [same, found]
    · rfl
  case h_2 => rfl

theorem push_push {first : Value} : (table.push key first).push key value = table.push key value := by
  simp [push, remove]

theorem modify_modify {first second : Value → Value} :
    (table.modify key first).modify key second = table.modify key fun value => second (first value) := by
  simp only [modify, map_map, mk.injEq]
  refine map_congr_left fun item _ => ?_
  by_cases same : item.1 = key
  · simp [same]
  · simp [same]

/-! ### Sums -/

variable {amount : Value → ℕ}

theorem total_congr {second : Value → ℕ}
    (same : ∀ key value, table.get? key = some value → amount value = second value) :
    table.total amount = table.total second := by
  refine congrArg sum (map_congr_left fun value mem => ?_)
  obtain ⟨⟨key, _⟩, there, rfl⟩ := mem_map.mp mem
  exact same key _ (mem_items.mp there)

theorem items_perm (found : table.get? key = some value) :
    table.items.Perm ((key, value) :: (table.remove key).items) := by
  refine (perm_ext_iff_of_nodup table.distinct.of_map ?_).mpr ?_
  · refine nodup_cons.mpr ⟨?_, (table.remove key).distinct.of_map⟩
    rw [mem_items, get?_remove_self]
    exact nofun
  · rintro ⟨name, here⟩
    rw [mem_cons, mem_items, mem_items, get?_remove]
    by_cases same : name = key
    · subst same
      rw [found]
      simp [eq_comm]
    · simp [same]

theorem total_remove (found : table.get? key = some value) :
    table.total amount = amount value + (table.remove key).total amount := by
  have same := ((items_perm found).map Prod.snd).map amount
  exact same.sum_eq

theorem items_remove_of_absent (absent : table.get? key = none) :
    (table.remove key).items = table.items := by
  refine filter_eq_self.mpr fun item mem => ?_
  rw [decide_eq_true_eq]
  rintro rfl
  rw [mem_items.mp mem] at absent
  cases absent

theorem total_remove_le : (table.remove key).total amount ≤ table.total amount := by
  cases found : table.get? key with
  | some value =>
    rw [total_remove found]
    exact Nat.le_add_left _ _
  | none =>
    unfold total values
    refine Nat.le_of_eq ?_
    rw [items_remove_of_absent found]

theorem values_push (absent : table.get? key = none) :
    (table.push key value).values = table.values ++ [value] := by
  have same : (table.push key value).items = table.items ++ [(key, value)] :=
    congrArg (· ++ _) (items_remove_of_absent absent)
  unfold values
  rw [same, map_append, map_singleton]

theorem map_values_modify {Seen : Type} {seen : Value → Seen}
    (same : ∀ value, seen (change value) = seen value) :
    (table.modify key change).values.map seen = table.values.map seen := by
  simp only [values, modify, map_map]
  refine map_congr_left fun item _ => ?_
  show seen (if item.1 = key then change item.2 else item.2) = seen item.2
  split_ifs
  · exact same item.2
  · rfl

theorem mem_values : value ∈ table.values ↔ ∃ key, table.get? key = some value := by
  unfold values
  rw [mem_map]
  constructor
  · rintro ⟨⟨key, _⟩, mem, rfl⟩
    exact ⟨key, mem_items.mp mem⟩
  · rintro ⟨key, found⟩
    exact ⟨(key, value), mem_items.mpr found, rfl⟩

omit [DecidableEq Key] in
theorem length_values : table.values.length = table.length := length_map _

theorem length_remove (found : table.get? key = some value) :
    table.length = (table.remove key).length + 1 := (items_perm found).length_eq

theorem length_remove_le : (table.remove key).length ≤ table.length := length_filter_le _ _

theorem total_push (absent : table.get? key = none) :
    (table.push key value).total amount = table.total amount + amount value := by
  have same : (table.push key value).items = table.items ++ [(key, value)] :=
    congrArg (· ++ _) (items_remove_of_absent absent)
  unfold total values
  rw [same]
  simp

theorem length_push (absent : table.get? key = none) :
    (table.push key value).length = table.length + 1 := by
  have same : (table.push key value).items = table.items ++ [(key, value)] :=
    congrArg (· ++ _) (items_remove_of_absent absent)
  unfold length
  rw [same]
  simp

theorem length_modify : (table.modify key change).length = table.length :=
  length_map _

theorem remove_modify : (table.modify key change).remove key = table.remove key := by
  obtain ⟨items, distinct⟩ := table
  simp only [remove, modify, mk.injEq]
  clear distinct
  induction items with
  | nil => rfl
  | cons item rest known =>
    by_cases same : item.1 = key
    all_goals simpa [filter_cons, same] using known

theorem total_modify (found : table.get? key = some value) :
    (table.modify key change).total amount + amount value
      = table.total amount + amount (change value) := by
  have there : (table.modify key change).get? key = some (change value) := by
    rw [get?_modify, found]
    simp
  rw [total_remove there, total_remove found, remove_modify]
  omega

theorem total_modify_same (same : ∀ value, amount (change value) = amount value) :
    (table.modify key change).total amount = table.total amount := by
  refine congrArg sum ?_
  simp only [values, modify, map_map]
  refine map_congr_left fun item _ => ?_
  show amount (if item.1 = key then change item.2 else item.2) = amount item.2
  split_ifs
  · exact same item.2
  · rfl

theorem total_moveToEnd : (table.moveToEnd key).total amount = table.total amount := by
  unfold moveToEnd
  split
  case h_1 value found =>
    have same : (table.push key value).remove key = table.remove key := by
      simp [push, remove]
    rw [total_remove found, total_remove get?_push_self, same]
  case h_2 => rfl

theorem length_moveToEnd : (table.moveToEnd key).length = table.length := by
  unfold moveToEnd
  split
  case h_1 value found =>
    have same : (table.push key value).remove key = table.remove key := by
      simp [push, remove]
    rw [length_remove found, length_remove get?_push_self, same]
  case h_2 => rfl

/-! ### Collecting -/

/-- A value is added for each key, until one has none. -/
def collect (read : Key → Option Value) : List Key → OrderedTable Key Value →
    Option (OrderedTable Key Value)
  | [], table => some table
  | key :: rest, table =>
    match read key with
    | none => none
    | some value => collect read rest (table.push key value)

variable {read : Key → Option Value} {keys : List Key} {after : OrderedTable Key Value}

theorem mem_keys : key ∈ table.items.map Prod.fst ↔ ∃ value, table.get? key = some value := by
  rw [mem_map]
  constructor
  · rintro ⟨⟨_, value⟩, mem, rfl⟩
    exact ⟨value, mem_items.mp mem⟩
  · rintro ⟨value, found⟩
    exact ⟨(key, value), mem_items.mpr found, rfl⟩

theorem keys_push (absent : table.get? key = none) :
    (table.push key value).items.map Prod.fst = table.items.map Prod.fst ++ [key] := by
  have same : (table.push key value).items = table.items ++ [(key, value)] :=
    congrArg (· ++ _) (items_remove_of_absent absent)
  rw [same, map_append, map_singleton]

theorem collect_some (each : ∀ key ∈ keys, ∃ value, read key = some value) :
    ∃ after, collect read keys table = some after := by
  induction keys generalizing table with
  | nil => exact ⟨table, rfl⟩
  | cons key rest known =>
    obtain ⟨⟨value, here⟩, others⟩ := forall_mem_cons.mp each
    unfold collect
    rw [here]
    exact known others

theorem get?_collect (collected : collect read keys table = some after) :
    after.get? key = if key ∈ keys then read key else table.get? key := by
  induction keys generalizing table with
  | nil =>
    cases collected
    rfl
  | cons first rest known =>
    unfold collect at collected
    split at collected
    case h_1 => cases collected
    case h_2 value here =>
      rw [known collected, get?_push]
      by_cases same : key = first
      · rw [if_pos same, if_pos (mem_cons.mpr (Or.inl same)), same, here]
        exact ite_self _
      · simp [same]

theorem keys_collect (collected : collect read keys table = some after) (distinct : keys.Nodup)
    (fresh : ∀ key ∈ keys, table.get? key = none) :
    after.items.map Prod.fst = table.items.map Prod.fst ++ keys := by
  induction keys generalizing table with
  | nil =>
    cases collected
    exact (append_nil _).symm
  | cons first rest known =>
    obtain ⟨unused, others⟩ := nodup_cons.mp distinct
    obtain ⟨absent, free⟩ := forall_mem_cons.mp fresh
    unfold collect at collected
    split at collected
    case h_1 => cases collected
    case h_2 value here =>
      have free' : ∀ key ∈ rest, (table.push first value).get? key = none := by
        intro key mem
        have differs : key ≠ first := fun same => unused (by rw [← same]; exact mem)
        rw [get?_push_ne differs]
        exact free key mem
      rw [known collected others free', keys_push absent, append_assoc]
      rfl

/-! ### Many items -/

theorem get?_perm (same : table.items.Perm second.items) (key : Key) :
    table.get? key = second.get? key := by
  refine Option.ext fun value => ?_
  rw [← mem_items, ← mem_items]
  exact same.mem_iff

theorem get?_pushAll {items : List (Key × Value)} (distinct : (items.map Prod.fst).Nodup) :
    (items.foldl (fun table item => table.push item.1 item.2) table).get? key
      = ((⟨items, distinct⟩ : OrderedTable Key Value).get? key).or (table.get? key) := by
  induction items generalizing table with
  | nil => rfl
  | cons item rest known =>
    obtain ⟨name, value⟩ := item
    obtain ⟨fresh, others⟩ := nodup_cons.mp distinct
    rw [foldl_cons, known others, get?_push]
    by_cases named : key = name
    · have absent : (⟨rest, others⟩ : OrderedTable Key Value).get? key = none := by
        refine lookup_eq_none_iff.mpr fun entry mem => ?_
        have differs : key ≠ entry.1 := fun same => fresh (mem_map.mpr ⟨entry, mem, same.symm.trans named⟩)
        simpa using differs
      rw [absent, named]
      simp [get?]
    · have differs : (key == name) = false := beq_false_of_ne named
      simp [get?, lookup_cons, differs, named]

def pushEach (table : OrderedTable Key Value) (keys : List Key) (value : Value) : OrderedTable Key Value :=
  keys.foldl (fun table key => table.push key value) table

def removeEach (table : OrderedTable Key Value) (keys : List Key) : OrderedTable Key Value :=
  keys.foldl (fun table key => table.remove key) table

theorem get?_pushEach :
    (table.pushEach keys value).get? key = if key ∈ keys then some value else table.get? key := by
  unfold pushEach
  induction keys generalizing table with
  | nil => rfl
  | cons first rest known =>
    rw [foldl_cons, known, get?_push]
    by_cases here : key = first
    · simp [here]
    · simp [here]

theorem length_pushEach (distinct : keys.Nodup) (fresh : ∀ key ∈ keys, table.get? key = none) :
    (table.pushEach keys value).length = table.length + keys.length := by
  unfold pushEach
  induction keys generalizing table with
  | nil => rfl
  | cons first rest known =>
    obtain ⟨unused, others⟩ := nodup_cons.mp distinct
    obtain ⟨absent, free⟩ := forall_mem_cons.mp fresh
    have free' : ∀ key ∈ rest, (table.push first value).get? key = none := by
      intro key mem
      have differs : key ≠ first := fun same => unused (same ▸ mem)
      rw [get?_push_ne differs]
      exact free key mem
    rw [foldl_cons, known others free', length_push absent, length_cons]
    omega

theorem get?_removeEach :
    (table.removeEach keys).get? key = if key ∈ keys then none else table.get? key := by
  unfold removeEach
  induction keys generalizing table with
  | nil => rfl
  | cons first rest known =>
    rw [foldl_cons, known, get?_remove]
    by_cases here : key = first
    · simp [here]
    · simp [here]

theorem length_removeEach_le : (table.removeEach keys).length ≤ table.length := by
  induction keys generalizing table with
  | nil => exact Nat.le_refl _
  | cons first rest known => exact Nat.le_trans known length_remove_le

theorem mapM_get? (each : ∀ key ∈ keys, ∃ value, table.get? key = some value) :
    ∃ values, keys.mapM table.get? = some values ∧
      List.Forall₂ (fun key value => table.get? key = some value) keys values := by
  induction keys with
  | nil => exact ⟨[], rfl, .nil⟩
  | cons key rest known =>
    obtain ⟨⟨value, here⟩, others⟩ := forall_mem_cons.mp each
    obtain ⟨values, found, all⟩ := known others
    refine ⟨value :: values, ?_, .cons here all⟩
    rw [mapM_cons, here, found]
    rfl

theorem all_keys (within : ∀ key value, table.get? key = some value → key ∈ keys)
    (full : keys.length ≤ table.length) : ∀ key ∈ keys, ∃ value, table.get? key = some value := by
  have subset : ∀ key ∈ table.items.map Prod.fst, key ∈ keys := by
    intro key mem
    obtain ⟨value, found⟩ := mem_keys.mp mem
    exact within key value found
  have perm := (subperm_of_subset table.distinct subset).perm_of_length_le ((length_map _).symm ▸ full)
  exact fun key mem => mem_keys.mp (perm.mem_iff.mpr mem)

end OrderedTable

end TinyDSV41.Lib
