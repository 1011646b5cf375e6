/-
**Loading a policy.**

`load_policy` checks the identity, the Engram delta and the adapter of a state before it copies; the
trainable and the frozen weights are each checked where they are copied, one after the other.

* `loadPolicy` — the policy after the call, and what it raises.
* `refused_load_spares` — a call that raises changes nothing, except where the trainable weights are
  accepted, differ from those there, and the frozen ones are refused.
-/

import TinyDSV41.Engram.PolicyState
import TinyDSV41.Lib.Checks

namespace TinyDSV41.Engram

open List Lib

/-! ### Policies -/

abbrev Weights (Row : Type) := OrderedTable String (Tensor Row)

/-- A baseline with finite rows. -/
structure PolicyBase (Identity Row : Type) where
  finite : Row → Bool
  baseline : Baseline Identity Row
  whole : ∀ name row, row ∈ baseline.view name → finite row = true

/-- What `load_policy` reads and writes of a model; `trainable` and `frozen` are its partitions. -/
structure Policy (Sft Adapter Identity Row : Type) (base : PolicyBase Identity Row) where
  lora : Bool
  initialSft : Option Sft
  adapter : Option Adapter
  trainable : Weights Row
  frozen : Weights Row
  engram : Option { state : EngramState Row // Sound base.finite base.baseline state }

/-- A policy state; `others` are its remaining keys. -/
structure PolicyRecord (Sft Adapter Identity Row : Type) where
  initialSft : Option (Option Sft)
  engramDelta : Option (Payload Identity Row)
  adapterFormat : Option ℤ
  adapter : Option Adapter
  trainable : Option (Weights Row)
  frozen : Option (Weights Row)
  others : List String

variable {Sft Adapter Identity Row : Type} {base : PolicyBase Identity Row}

section Load

variable (cast : DType → Row → Row)

/-- `value.copy_(source.to(value.dtype))` -/
def copyTensor (value source : Tensor Row) : Tensor Row :=
  if same : source.shape = value.shape then
    ⟨value.cpu, value.dtype, value.shape, source.items.map (cast value.dtype), fun length rest shape => by
      rw [length_map]
      exact source.sized length rest (same.trans shape)⟩
  else value

/-- The copies of `_load_partition`. -/
def copyWeights (state destinations : Weights Row) : Weights Row where
  items := destinations.items.map fun item => (item.1, (state.get? item.1).elim item.2 (copyTensor cast item.2))
  distinct := by
    rw [map_map]
    exact destinations.distinct

/-- `_load_partition` -/
def loadPartition (state destinations : Weights Row) : Except String (Weights Row) :=
  if ¬ (names state ⊆ names destinations ∧ names destinations ⊆ names state) then
    .error "DeepSeek policy state keys do not match"
  else match destinations.items.find? fun item => (state.get? item.1).any fun given => given.shape ≠ item.2.shape with
    | some item => .error ("DeepSeek policy tensor shape mismatch: " ++ item.1)
    | none => .ok (copyWeights cast state destinations)

/-- `load_frozen_state_dict` -/
def loadFrozen (lora : Bool) (state destinations : Weights Row) : Except String (Weights Row) :=
  if lora then
    if state.items = [] then .ok destinations
    else .error "LoRA frozen weights reconstruct from the identified base"
  else loadPartition cast state destinations

variable [DecidableEq Sft] [DecidableEq Adapter] [DecidableEq Identity]
  (policy : Policy Sft Adapter Identity Row base) (record : PolicyRecord Sft Adapter Identity Row)

/-- `engram.validate` -/
def checkDelta : Except String Unit :=
  match policy.engram, record.engramDelta with
  | some engram, some payload => validate base.finite base.baseline engram.1 payload
  | _, _ => .ok ()

/-- The checks of `load_policy` before the first copy. -/
def checkPolicy : Except String Unit := do
  require (record.initialSft.join = policy.initialSft) "policy initial SFT checkpoint identity differs"
  require (policy.engram.isSome = record.engramDelta.isSome)
    "policy Engram delta presence differs from the configured baseline"
  checkDelta policy record
  if policy.adapter.isSome ∨ record.adapterFormat.isSome then
    require (record.trainable.isSome ∧ record.frozen.isSome ∧ record.initialSft = none ∧
        record.others ⊆ ["version", "lineage", "identity", "sampling"] ∧ record.adapterFormat = some 1 ∧
        policy.adapter.isSome ∧ record.adapter = policy.adapter)
      "LoRA policy configuration or initial adapter identity differs"
    require (∀ frozen ∈ record.frozen, frozen.items = []) "LoRA policy artifacts must not include frozen base weights"

/-- The last part of `load_policy`. -/
def loadEngram : Policy Sft Adapter Identity Row base × Except String Unit :=
  match policy.engram, record.engramDelta with
  | some engram, some payload =>
    ({ policy with engram := some ⟨(loadStateDict base.finite base.baseline engram.1 payload).1,
        loadStateDict_sound base.whole engram.2⟩ },
      (loadStateDict base.finite base.baseline engram.1 payload).2)
  | _, _ => (policy, .ok ())

/-- `load_policy` -/
def loadPolicy : Policy Sft Adapter Identity Row base × Except String Unit :=
  match checkPolicy policy record, record.trainable with
  | .error error, _ => (policy, .error error)
  | .ok (), none => (policy, .error "'trainable'")
  | .ok (), some trainable =>
    match loadPartition cast trainable policy.trainable, record.frozen with
    | .error error, _ => (policy, .error error)
    | .ok copied, none => ({ policy with trainable := copied }, .error "'frozen'")
    | .ok copied, some frozen =>
      match loadFrozen cast policy.lora frozen policy.frozen with
      | .error error => ({ policy with trainable := copied }, .error error)
      | .ok kept => loadEngram { policy with trainable := copied, frozen := kept } record

end Load

/-! ### What is refused -/

/-- The keys and the shapes that `_load_partition` accepts. -/
def Matches (state destinations : Weights Row) : Prop :=
  (names state ⊆ names destinations ∧ names destinations ⊆ names state) ∧
    ∀ item ∈ destinations.items, ∀ given, state.get? item.1 = some given → given.shape = item.2.shape

variable (cast : DType → Row → Row)

theorem loadPartition_cases (state destinations : Weights Row) :
    Matches state destinations ∧ loadPartition cast state destinations = .ok (copyWeights cast state destinations) ∨
      ¬ Matches state destinations ∧ ∃ error, loadPartition cast state destinations = .error error := by
  unfold loadPartition Matches
  split_ifs with keys
  · cases found : destinations.items.find? fun item => (state.get? item.1).any fun given => given.shape ≠ item.2.shape with
    | none =>
      rw [find?_eq_none] at found
      refine Or.inl ⟨⟨keys, fun item mem given there => ?_⟩, rfl⟩
      by_contra differs
      exact found item mem (by simp [there, differs])
    | some item =>
      refine Or.inr ⟨fun both => ?_, _, rfl⟩
      have odd := find?_some found
      cases there : state.get? item.1 with
      | none => simp [there] at odd
      | some given => simp [there, both.2 item (mem_of_find?_eq_some found) given there] at odd
  · exact Or.inr ⟨fun both => keys both.1, _, rfl⟩

def Changes (cast : DType → Row → Row) (state destinations : Weights Row) : Prop :=
  ∃ item ∈ destinations.items, ∃ given, state.get? item.1 = some given ∧ copyTensor cast item.2 given ≠ item.2

theorem copyWeights_eq_iff {state destinations : Weights Row} :
    copyWeights cast state destinations = destinations ↔ ¬ Changes cast state destinations := by
  have items : copyWeights cast state destinations = destinations ↔
      destinations.items.map (fun item => (item.1, (state.get? item.1).elim item.2 (copyTensor cast item.2)))
        = destinations.items.map id := by
    rw [map_id]
    cases destinations
    simp [copyWeights]
  rw [items, map_inj_left]
  unfold Changes
  push Not
  refine forall₂_congr fun item _ => ?_
  cases state.get? item.1 with
  | none => simp
  | some given => simp [Prod.ext_iff]

/-- What `load_frozen_state_dict` refuses. -/
def FrozenRefused (policy : Policy Sft Adapter Identity Row base) (frozen : Option (Weights Row)) : Prop :=
  ∀ weights ∈ frozen, if policy.lora then weights.items ≠ [] else ¬ Matches weights policy.frozen

theorem setTrainable_eq_iff {policy : Policy Sft Adapter Identity Row base} {trainable : Weights Row} :
    { policy with trainable := trainable } = policy ↔ trainable = policy.trainable := by
  cases policy
  simp

theorem loadFrozen_cases (policy : Policy Sft Adapter Identity Row base) (frozen : Weights Row) :
    ¬ FrozenRefused policy (some frozen) ∧ (∃ kept, loadFrozen cast policy.lora frozen policy.frozen = .ok kept) ∨
      FrozenRefused policy (some frozen) ∧ ∃ error, loadFrozen cast policy.lora frozen policy.frozen = .error error := by
  unfold FrozenRefused loadFrozen
  simp only [Option.mem_def, Option.some.injEq, forall_eq']
  split_ifs with lora empty
  · exact Or.inl ⟨fun refused => refused empty, _, rfl⟩
  · exact Or.inr ⟨empty, _, rfl⟩
  · rcases loadPartition_cases cast frozen policy.frozen with ⟨fits, loaded⟩ | ⟨unfit, error, refused⟩
    · exact Or.inl ⟨fun unfit => unfit fits, _, loaded⟩
    · exact Or.inr ⟨unfit, error, refused⟩

variable [DecidableEq Sft] [DecidableEq Adapter] [DecidableEq Identity]
variable {policy : Policy Sft Adapter Identity Row base} {record : PolicyRecord Sft Adapter Identity Row}

/-- The call fails between the two partitions, after it has changed a trainable weight. -/
def HalfLoaded (cast : DType → Row → Row) (policy : Policy Sft Adapter Identity Row base)
    (record : PolicyRecord Sft Adapter Identity Row) : Prop :=
  checkPolicy policy record = .ok () ∧
    (∃ trainable ∈ record.trainable, Matches trainable policy.trainable ∧ Changes cast trainable policy.trainable) ∧
    FrozenRefused policy record.frozen

/-- An accepted delta is loaded. -/
theorem loadEngram_ok (checked : checkPolicy policy record = .ok ()) {changed : Policy Sft Adapter Identity Row base}
    (same : changed.engram = policy.engram) : (loadEngram changed record).2 = .ok () := by
  unfold checkPolicy at checked
  obtain ⟨_, -, checked⟩ := bind_eq_ok.mp checked
  obtain ⟨_, -, checked⟩ := bind_eq_ok.mp checked
  obtain ⟨_, valid, -⟩ := bind_eq_ok.mp checked
  unfold loadEngram
  rw [same]
  cases held : policy.engram with
  | none => rfl
  | some engram =>
    cases there : record.engramDelta with
    | none => rfl
    | some payload =>
      simp only [checkDelta, held, there] at valid
      obtain ⟨-, delta, rfl, -⟩ := validate_ok.mp valid
      obtain ⟨after, ran, -⟩ := loadStateDict_ok base.whole engram.2 valid
      simp only [ran]

/-- **A refused policy state** changes nothing, unless it is refused for its frozen part after its trainable one was
copied. -/
theorem refused_load_spares (cast : DType → Row → Row) (policy : Policy Sft Adapter Identity Row base)
    (record : PolicyRecord Sft Adapter Identity Row) :
    (∀ error, (loadPolicy cast policy record).2 = .error error → (loadPolicy cast policy record).1 = policy) ↔
      ¬ HalfLoaded cast policy record := by
  unfold HalfLoaded loadPolicy
  rcases checked : checkPolicy policy record with error | ⟨⟩
  · simp
  · cases given : record.trainable with
    | none => simp
    | some trainable =>
      simp only [Option.mem_def, Option.some.injEq, exists_eq_left', true_and]
      rcases loadPartition_cases cast trainable policy.trainable with ⟨fits, loaded⟩ | ⟨unfit, error, refused⟩
      · rw [loaded]
        cases kept : record.frozen with
        | none => simp [setTrainable_eq_iff, copyWeights_eq_iff, fits, FrozenRefused]
        | some frozen =>
          rcases loadFrozen_cases cast policy frozen with ⟨accepted, after, ran⟩ | ⟨refused, error, ran⟩
          · have done := @loadEngram_ok _ _ _ _ _ _ _ _ _ _ checked
              { policy with trainable := copyWeights cast trainable policy.trainable, frozen := after } rfl
            simp [ran, done, accepted]
          · simp [ran, setTrainable_eq_iff, copyWeights_eq_iff, fits, refused]
      · simp [refused, unfit]

/-! ### A refused frozen part -/

def twoWeights : Policy Unit Unit Unit ℕ ⟨fun _ => true, sampleBaseline, fun _ _ _ => rfl⟩ where
  lora := false
  initialSft := none
  adapter := none
  trainable := (∅ : Weights ℕ).push "head" ⟨true, .float32, [1], [0], fun _ _ same => (cons.inj same).1⟩
  frozen := (∅ : Weights ℕ).push "body" ⟨true, .float32, [1], [0], fun _ _ same => (cons.inj same).1⟩
  engram := none

/-- A state with another head and without the body. -/
def headOnly : PolicyRecord Unit Unit Unit ℕ where
  initialSft := none
  engramDelta := none
  adapterFormat := none
  adapter := none
  trainable := some ((∅ : Weights ℕ).push "head" ⟨true, .float32, [1], [1], fun _ _ same => (cons.inj same).1⟩)
  frozen := some ∅
  others := []

/-- The head is copied, and the state is refused. -/
theorem head_only_copied : (loadPolicy (fun _ => id) twoWeights headOnly).2 = .error "DeepSeek policy state keys do not match" ∧
    ((loadPolicy (fun _ => id) twoWeights headOnly).1.trainable.get? "head").map (·.items) = some [1] ∧
    (twoWeights.trainable.get? "head").map (·.items) = some [0] := by
  refine ⟨?_, ?_, ?_⟩ <;> rfl

end TinyDSV41.Engram
