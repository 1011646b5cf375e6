/-
**Checks that raise.**

What a sequence of checks returns, if it returns at all, by one equivalence for each way to go on.

* `bind_eq_ok`, `map_eq_ok`, `require_eq_ok` — one check after another.
* `mapM_eq_ok` — the same check of each item.
* `Raises` — which failures a check can raise at all.
* `bind_eq_error`, `Raises.later_error`, `mapM_eq_error` — when a sequence of checks raises a certain failure.
-/

import Mathlib.Data.List.Forall2

namespace TinyDSV41.Lib

open List

variable {Failure First Second Item Value : Type}

/-- The failure is raised unless the condition holds. -/
def require (condition : Prop) [Decidable condition] (failure : Failure) : Except Failure Unit :=
  if condition then .ok () else .error failure

variable {result : Except Failure First} {next : First → Except Failure Second}

theorem bind_eq_ok {value : Second} :
    (result >>= next) = .ok value ↔ ∃ inner, result = .ok inner ∧ next inner = .ok value := by
  cases result with
  | error failure => exact ⟨nofun, fun ⟨_, same, _⟩ => (by cases same)⟩
  | ok inner => exact ⟨fun same => ⟨inner, rfl, same⟩, fun ⟨_, found, same⟩ => (by cases found; exact same)⟩

theorem ok_bind {inner : First} {value : Second} (found : result = .ok inner)
    (later : next inner = .ok value) : (result >>= next) = .ok value :=
  bind_eq_ok.mpr ⟨inner, found, later⟩

variable {failure : Failure}

theorem bind_eq_error : (result >>= next) = .error failure ↔
      result = .error failure ∨ ∃ inner, result = .ok inner ∧ next inner = .error failure := by
  cases result with
  | error other =>
    constructor
    · exact fun same => Or.inl (congrArg _ (Except.error.inj same))
    · rintro (same | ⟨_, same, _⟩)
      · exact congrArg _ (Except.error.inj same)
      · cases same
  | ok inner =>
    constructor
    · exact fun raised => Or.inr ⟨inner, rfl, raised⟩
    · rintro (same | ⟨_, same, raised⟩)
      · cases same
      · cases same
        exact raised

theorem map_eq_ok {change : First → Second} {value : Second} :
    result.map change = .ok value ↔ ∃ inner, result = .ok inner ∧ change inner = value := by
  cases result with
  | error failure => exact ⟨nofun, fun ⟨_, same, _⟩ => (by cases same)⟩
  | ok inner =>
    exact ⟨fun same => ⟨inner, rfl, Except.ok.inj same⟩, fun ⟨_, found, same⟩ => (by cases found; exact congrArg _ same)⟩

@[simp] theorem require_eq_ok {condition : Prop} [Decidable condition] {value : Unit} :
    require condition failure = .ok value ↔ condition := by
  unfold require
  by_cases holds : condition
  · rw [if_pos holds]
    exact ⟨fun _ => holds, fun _ => rfl⟩
  · rw [if_neg holds]
    exact ⟨nofun, fun here => absurd here holds⟩

theorem require_ok {condition : Prop} [Decidable condition] (holds : condition) :
    require condition failure = .ok () := require_eq_ok.mpr holds

variable {items : List Item} {values : List Value} {read : Item → Except Failure Value}

theorem mapM_eq_ok :
    items.mapM read = .ok values ↔ List.Forall₂ (fun item value => read item = .ok value) items values := by
  induction items generalizing values with
  | nil =>
    cases values with
    | nil => exact ⟨fun _ => .nil, fun _ => rfl⟩
    | cons value values => exact ⟨nofun, nofun⟩
  | cons item items known =>
    rw [mapM_cons, bind_eq_ok]
    constructor
    · rintro ⟨value, first, rest⟩
      obtain ⟨others, later, same⟩ := bind_eq_ok.mp rest
      cases same
      exact .cons first (known.mp later)
    · intro both
      cases both with
      | cons first later => exact ⟨_, first, ok_bind (known.mpr later) rfl⟩

variable {relation : Item → Value → Prop}

section

variable (both : List.Forall₂ relation items values)
include both

theorem forall₂_right {value : Value} (mem : value ∈ values) :
    ∃ item ∈ items, relation item value := by
  induction both with
  | nil => cases mem
  | cons here _ known =>
    rcases mem_cons.mp mem with rfl | mem
    · exact ⟨_, mem_cons_self, here⟩
    · obtain ⟨item, within, related⟩ := known mem
      exact ⟨item, mem_cons_of_mem _ within, related⟩

theorem forall₂_left {item : Item} (mem : item ∈ items) :
    ∃ value ∈ values, relation item value := forall₂_right both.flip mem

theorem forall₂_getElem? {index : ℕ} {item : Item} (found : items[index]? = some item) :
    ∃ value, values[index]? = some value ∧ relation item value := by
  obtain ⟨inside, same⟩ := List.getElem?_eq_some_iff.mp found
  have there : index < values.length := by rw [← both.length_eq]; exact inside
  refine ⟨values.get ⟨index, there⟩, List.getElem?_eq_getElem there, ?_⟩
  have here := (List.forall₂_iff_get.mp both).2 index inside there
  rw [← same]
  exact here

theorem forall₂_map_eq {Common : Type} {first : Item → Common} {second : Value → Common}
    (same : ∀ item value, relation item value → first item = second value) :
    items.map first = values.map second := by
  induction both with
  | nil => rfl
  | cons here _ known => rw [map_cons, map_cons, same _ _ here, known]

end

theorem mapM_unit_ok {check : Item → Except Failure Unit} :
    (∃ units, items.mapM check = .ok units) ↔ ∀ item ∈ items, check item = .ok () := by
  constructor
  · rintro ⟨units, ran⟩ item mem
    obtain ⟨_, -, found⟩ := forall₂_left (mapM_eq_ok.mp ran) mem
    exact found
  · intro all
    refine ⟨items.map fun _ => (), mapM_eq_ok.mpr (forall₂_map_right_iff.mpr ?_)⟩
    exact forall₂_same.mpr all

def Accepts (result : Except Failure Value) : Prop := ∃ value, result = .ok value

theorem not_accepts_error : ¬ Accepts (.error failure : Except Failure Value) := by
  rintro ⟨_, same⟩
  cases same

/-! ### What is raised -/

/-- Every failure that is raised is a good one. -/
def Raises (good : Failure → Prop) (result : Except Failure Value) : Prop := ∀ failure, result = .error failure → good failure

namespace Raises

variable {good : Failure → Prop}

theorem ok (value : Value) : Raises good (.ok value : Except Failure Value) := nofun

theorem error (holds : good failure) : Raises good (.error failure : Except Failure Value) :=
  fun _ same => Except.error.inj same ▸ holds

theorem bind (first : Raises good result)
    (later : ∀ inner, result = .ok inner → Raises good (next inner)) : Raises good (result >>= next) := by
  cases result with
  | error failure =>
    exact error (first failure rfl)
  | ok inner => exact later inner rfl

theorem map {change : First → Second} (first : Raises good result) : Raises good (result.map change) := by
  cases result with
  | error failure =>
    exact error (first failure rfl)
  | ok inner => exact ok _

theorem require {condition : Prop} [Decidable condition] (holds : good failure) :
    Raises good (Lib.require condition failure) := by
  unfold Lib.require
  by_cases met : condition
  · rw [if_pos met]
    exact ok ()
  · rw [if_neg met]
    exact error holds

theorem mapM (each : ∀ item ∈ items, Raises good (read item)) : Raises good (items.mapM read) := by
  induction items with
  | nil => exact ok []
  | cons item rest known =>
    obtain ⟨here, later⟩ := forall_mem_cons.mp each
    rw [mapM_cons]
    exact bind here fun _ _ => bind (known later) fun _ _ => ok _

theorem later_error (first : Raises good result) (bad : ¬ good failure) :
    (result >>= next) = .error failure ↔ ∃ inner, result = .ok inner ∧ next inner = .error failure :=
  bind_eq_error.trans (or_iff_right fun same => bad (first failure same))

end Raises

/-- Some item fails, and all before it pass. -/
def FailsAt (passes fails : Item → Prop) (items : List Item) : Prop :=
  ∃ before item after, items = before ++ item :: after ∧ (∀ other ∈ before, passes other) ∧ fails item

theorem failsAt_cons {passes fails : Item → Prop} {first : Item} {rest : List Item} :
    FailsAt passes fails (first :: rest) ↔ fails first ∨ passes first ∧ FailsAt passes fails rest := by
  constructor
  · rintro ⟨before, item, after, same, passed, failed⟩
    cases before with
    | nil =>
      cases same
      exact Or.inl failed
    | cons other before =>
      cases same
      obtain ⟨here, later⟩ := forall_mem_cons.mp passed
      exact Or.inr ⟨here, before, item, after, rfl, later, failed⟩
  · rintro (failed | ⟨here, before, item, after, rfl, passed, failed⟩)
    · exact ⟨[], first, rest, rfl, fun _ none_ => (nomatch none_), failed⟩
    · exact ⟨first :: before, item, after, rfl, forall_mem_cons.mpr ⟨here, passed⟩, failed⟩

/-- Checking each item raises what the first item raises that does not pass. -/
theorem mapM_eq_error : items.mapM read = .error failure ↔
      FailsAt (fun item => Accepts (read item)) (fun item => read item = .error failure) items := by
  induction items with
  | nil =>
    constructor
    · intro same
      cases same
    · rintro ⟨before, item, after, same, -⟩
      cases before <;> cases same
  | cons first rest known =>
    rw [mapM_cons, failsAt_cons, ← known]
    cases read first with
    | error other =>
      constructor
      · intro same
        exact Or.inl (congrArg _ (Except.error.inj same))
      · rintro (failed | ⟨passed, -⟩)
        · exact congrArg _ (Except.error.inj failed)
        · exact absurd passed not_accepts_error
    | ok value =>
      cases rest.mapM read with
      | error other =>
        constructor
        · intro same
          exact Or.inr ⟨⟨value, rfl⟩, congrArg _ (Except.error.inj same)⟩
        · rintro (failed | ⟨-, failed⟩)
          · cases failed
          · exact congrArg _ (Except.error.inj failed)
      | ok values =>
        constructor
        · intro same
          cases same
        · rintro (failed | ⟨-, failed⟩) <;> cases failed

end TinyDSV41.Lib
