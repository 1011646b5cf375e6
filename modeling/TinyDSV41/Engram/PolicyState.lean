/-
**The private Engram tables of a policy.**

A learner and several actors share a sealed baseline. Each of them has private tables and, for each
table, the rows that may differ from the baseline.

* `markTouched`, `stateDict`, `loadStateDict` — the operations on a state.
* `LoadedState` — what a state is after an accepted payload was loaded.
* `policy_state` — updates, snapshots and loads in any order, at any number of states.
-/

import TinyDSV41.Engram.Delta
import TinyDSV41.Lib.Rows

namespace TinyDSV41.Engram

open List Lib OrderedTable
open Option (map_some none_or some_or)

/-! ### States -/

structure Baseline (Identity Row : Type) where
  identity : Identity
  shapes : Shapes
  dtype : DType
  view : String → List Row
  sized : ∀ name rows width, shapes.get? name = some (rows, width) → (view name).length = rows

inductive Role
  | learner
  | reference
  | actor
deriving DecidableEq

/-- The gradient of a table; `ids` are `_indices()[0]`. -/
inductive Gradient
  | dense
  | sparse (ids : List ℤ)

structure RoleEmbedding (Row : Type) where
  weight : List Row
  grad : Option Gradient

structure EngramState (Row : Type) where
  role : Role
  tables : OrderedTable String (RoleEmbedding Row)
  dirty : OrderedTable String (List ℤ)

variable {Identity Row : Type} (finite : Row → Bool) (baseline : Baseline Identity Row)

def chunkRows : ℕ := 131072

def perTable {Old New : Type} (table : OrderedTable String Old) (value : String → New) :
    OrderedTable String New where
  items := table.items.map fun item => (item.1, value item.1)
  distinct := by
    rw [map_map]
    exact table.distinct

/-- `EngramState.__init__` -/
def EngramState.init (role : Role) : EngramState Row where
  role := role
  tables := perTable baseline.shapes fun name => ⟨baseline.view name, none⟩
  dirty := perTable baseline.shapes fun _ => []

/-- `mark_touched`, table by table. -/
def markTables (state : EngramState Row) : List String → EngramState Row × Except String Unit
  | [] => (state, .ok ())
  | name :: rest =>
    match (state.tables.get? name).bind (·.grad) with
    | none => markTables state rest
    | some .dense => (state, .error "Engram gradients must be sparse")
    | some (.sparse ids) =>
      markTables { state with dirty := state.dirty.modify name fun dirty => unique (dirty ++ ids) } rest

def markTouched (state : EngramState Row) : EngramState Row × Except String Unit :=
  if state.role ≠ .learner then (state, .error "only the learner may update Engram")
  else markTables state (names state.tables)

def tableRecord (state : EngramState Row) (name : String) : Option (Record Row) :=
  match state.tables.get? name, state.dirty.get? name, baseline.shapes.get? name with
  | some table, some ids, some (_, width) =>
    match indexSelect table.weight ids with
    | none => none
    | some values => some (.rows
        ⟨true, .int64, [ids.length], ids, fun _ _ same => (cons.inj same).1⟩
        ⟨true, baseline.dtype, [values.length, width], values, fun _ _ same => (cons.inj same).1⟩)
  | _, _, _ => none

/-- `state_dict`; `none` if `index_select` raises. -/
def stateDict (state : EngramState Row) : Option (Delta Identity Row) :=
  (collect (tableRecord baseline state) (names state.dirty) ∅).map
    fun tables => ⟨1, baseline.identity, tables⟩

/-- `validate` -/
def validate [DecidableEq Identity] (state : EngramState Row) (payload : Payload Identity Row) : Except String Unit :=
  if state.role = .reference then .error "the initial reference cannot load learner Engram state"
  else validateDelta finite payload baseline.identity baseline.shapes baseline.dtype

def undo (original weight : List Row) : List (List ℤ) → Option (List Row)
  | [] => some weight
  | ids :: rest =>
    match indexSelect original ids with
    | none => none
    | some values =>
      match indexCopy weight (ids.zip values) with
      | none => none
      | some weight => undo original weight rest

/-- One table of a payload is loaded; `none` if `index_copy_` raises. -/
def loadTable (delta : Delta Identity Row) (state : EngramState Row) (name : String) :
    Option (EngramState Row) :=
  match state.tables.get? name, state.dirty.get? name, delta.tables.get? name with
  | some table, some dirty, some (.rows indices values) =>
    match undo (baseline.view name) table.weight (split chunkRows dirty) with
    | none => none
    | some clean =>
      match indexCopy clean (indices.items.zip values.items) with
      | none => none
      | some weight => some { state with
          tables := state.tables.modify name fun _ => ⟨weight, none⟩
          dirty := state.dirty.modify name fun _ => indices.items }
  | _, _, _ => none

def loadTables (delta : Delta Identity Row) (state : EngramState Row) :
    List String → EngramState Row × Except String Unit
  | [] => (state, .ok ())
  | name :: rest =>
    match loadTable baseline delta state name with
    | none => (state, .error "index_copy_(): index out of bounds")
    | some state => loadTables delta state rest

/-- `load_state_dict` -/
def loadStateDict [DecidableEq Identity] (state : EngramState Row) (payload : Payload Identity Row) :
    EngramState Row × Except String Unit :=
  match validate finite baseline state payload, payload with
  | .error error, _ => (state, .error error)
  | .ok (), .malformed => (state, .error "KeyError")
  | .ok (), .delta delta => loadTables baseline delta state (names state.tables)

/-! ### What may change -/

/-- What `optimizer.step` may change: the rows under the gradients, to finite values. -/
structure Stepped (before after : EngramState Row) : Prop where
  role : after.role = before.role
  dirty : after.dirty = before.dirty
  names : names after.tables = names before.tables
  tables : ∀ name old, before.tables.get? name = some old → ∃ new, after.tables.get? name = some new ∧
    new.grad = old.grad ∧ new.weight.length = old.weight.length ∧
      ∀ id, rowAt new.weight id = rowAt old.weight id ∨
        (∃ ids, old.grad = some (.sparse ids) ∧ id ∈ ids) ∧
          ∀ row, rowAt new.weight id = some row → finite row = true

/-- What `backward` and `zero_grad` may change: the gradients of a learner, which are of its rows. -/
structure Backward (before after : EngramState Row) : Prop where
  learner : before.role = .learner
  role : after.role = before.role
  dirty : after.dirty = before.dirty
  names : names after.tables = names before.tables
  tables : ∀ name old, before.tables.get? name = some old → ∃ new, after.tables.get? name = some new ∧
    new.weight = old.weight ∧ ∀ ids, new.grad = some (.sparse ids) → Within ids old.weight.length

/-! ### What holds of a state -/

/-- A table of a state, with its dirty rows. -/
structure TableSound (finite : Row → Bool) (original : List Row) (rows : ℕ)
    (table : RoleEmbedding Row) (dirty : List ℤ) : Prop where
  length : table.weight.length = rows
  ids : RowIds dirty rows
  clean : ∀ id, id ∉ dirty → rowAt table.weight id = rowAt original id
  finite : ∀ id row, rowAt table.weight id = some row → finite row = true
  grad : ∀ ids, table.grad = some (.sparse ids) → Within ids rows

structure Sound (finite : Row → Bool) (baseline : Baseline Identity Row) (state : EngramState Row) :
    Prop where
  tables : names state.tables = names baseline.shapes
  dirty : names state.dirty = names baseline.shapes
  each : ∀ name rows width, baseline.shapes.get? name = some (rows, width) → ∃ table dirty,
    state.tables.get? name = some table ∧ state.dirty.get? name = some dirty ∧
      TableSound finite (baseline.view name) rows table dirty

variable {finite} {baseline} {state after : EngramState Row} {name : String}

theorem Sound.shape (sound : Sound finite baseline state) {table : RoleEmbedding Row}
    (found : state.tables.get? name = some table) :
    ∃ rows width, baseline.shapes.get? name = some (rows, width) := by
  have mem : name ∈ names state.tables := mem_keys.mpr ⟨table, found⟩
  rw [sound.tables] at mem
  obtain ⟨⟨rows, width⟩, shape⟩ := mem_keys.mp mem
  exact ⟨rows, width, shape⟩

theorem Sound.table (sound : Sound finite baseline state) {table : RoleEmbedding Row}
    (found : state.tables.get? name = some table) : ∃ rows width dirty,
      baseline.shapes.get? name = some (rows, width) ∧ state.dirty.get? name = some dirty ∧
        TableSound finite (baseline.view name) rows table dirty := by
  obtain ⟨rows, width, shape⟩ := sound.shape found
  obtain ⟨table', dirty, found', marked, fine⟩ := sound.each name rows width shape
  rw [found] at found'
  cases found'
  exact ⟨rows, width, dirty, shape, marked, fine⟩

theorem names_perTable {Old New : Type} {table : OrderedTable String Old} {value : String → New} :
    names (perTable table value) = names table := by
  unfold names perTable
  rw [map_map]
  rfl

theorem get?_perTable {Old New : Type} {table : OrderedTable String Old} {value : String → New}
    {old : Old} (found : table.get? name = some old) :
    (perTable table value).get? name = some (value name) :=
  mem_items.mp (mem_map.mpr ⟨(name, old), mem_items.mpr found, rfl⟩)

theorem names_modify {Value : Type} {table : OrderedTable String Value} {change : Value → Value} :
    names (table.modify name change) = names table := by
  unfold names OrderedTable.modify
  rw [map_map]
  rfl

theorem init_sound (whole : ∀ name row, row ∈ baseline.view name → finite row = true) (role : Role) :
    Sound finite baseline (EngramState.init baseline role) := by
  refine ⟨names_perTable, names_perTable, fun name rows width shape => ?_⟩
  refine ⟨_, _, get?_perTable shape, get?_perTable shape, baseline.sized name rows width shape,
    ⟨List.Pairwise.nil, nofun⟩, fun _ _ => rfl,
    fun id row found => whole name row (rowAt_mem found), nofun⟩

/-! ### Updates -/

variable {rows : ℕ}
variable {original : List Row}

theorem TableSound.mark {table : RoleEmbedding Row} {dirty ids : List ℤ}
    (fine : TableSound finite original rows table dirty) (within : Within ids rows) :
    TableSound finite original rows table (unique (dirty ++ ids)) where
  length := fine.length
  ids := by
    refine ⟨unique_increasing, fun id mem => ?_⟩
    rcases mem_append.mp (mem_unique.mp mem) with before | now
    · exact fine.ids.within id before
    · exact within id now
  clean id fresh := fine.clean id fun before =>
    fresh (mem_unique.mpr (mem_append_left _ before))
  finite := fine.finite
  grad := fine.grad

/-- What `mark_touched` keeps, and what it adds. -/
structure Marked (before after : EngramState Row) : Prop where
  role : after.role = before.role
  tables : after.tables = before.tables
  names : names after.dirty = names before.dirty
  grows : ∀ name old, before.dirty.get? name = some old → ∃ new, after.dirty.get? name = some new ∧ old ⊆ new

theorem Marked.refl : Marked state state :=
  ⟨rfl, rfl, rfl, fun _ old found => ⟨old, found, fun _ mem => mem⟩⟩

theorem Marked.trans {third : EngramState Row} (one : Marked state after) (two : Marked after third) :
    Marked state third := by
  refine ⟨two.role.trans one.role, two.tables.trans one.tables, two.names.trans one.names, ?_⟩
  intro name old found
  obtain ⟨middle, there, more⟩ := one.grows name old found
  obtain ⟨new, here, most⟩ := two.grows name middle there
  exact ⟨new, here, fun _ mem => most (more mem)⟩

theorem mark_one (sound : Sound finite baseline state) {table : RoleEmbedding Row} {ids : List ℤ}
    (found : state.tables.get? name = some table) (touched : table.grad = some (.sparse ids)) :
    ∃ after, after = { state with dirty := state.dirty.modify name fun dirty => unique (dirty ++ ids) } ∧
      Sound finite baseline after ∧ Marked state after ∧
        ∃ dirty, after.dirty.get? name = some dirty ∧ ids ⊆ dirty := by
  refine ⟨_, rfl, ?_, ?_, ?_⟩
  · refine ⟨sound.tables, names_modify.trans sound.dirty, fun other rows width shape => ?_⟩
    obtain ⟨table', dirty, there, marked, fine⟩ := sound.each other rows width shape
    by_cases same : other = name
    · subst same
      rw [found] at there
      cases there
      refine ⟨table, _, found, ?_, fine.mark (fine.grad ids touched)⟩
      rw [get?_modify, marked, map_some, if_pos rfl]
    · refine ⟨table', dirty, there, ?_, fine⟩
      rw [get?_modify_ne same]
      exact marked
  · refine ⟨rfl, rfl, names_modify, fun other old before => ?_⟩
    by_cases same : other = name
    · refine ⟨unique (old ++ ids), ?_, fun id mem => mem_unique.mpr (mem_append_left _ mem)⟩
      rw [get?_modify, before, map_some, if_pos same]
    · refine ⟨old, ?_, fun _ mem => mem⟩
      rw [get?_modify_ne same]
      exact before
  · obtain ⟨rows, width, dirty, -, marked, -⟩ := sound.table found
    refine ⟨unique (dirty ++ ids), ?_, fun id mem => mem_unique.mpr (mem_append_right _ mem)⟩
    rw [get?_modify, marked, map_some, if_pos rfl]

def Touched (state : EngramState Row) (list : List String) : Prop :=
  ∀ name ∈ list, ∀ table ids, state.tables.get? name = some table →
    table.grad = some (.sparse ids) → ∃ dirty, state.dirty.get? name = some dirty ∧ ids ⊆ dirty

theorem markTables_ok {list : List String} (sound : Sound finite baseline state) :
    Sound finite baseline (markTables state list).1 ∧ Marked state (markTables state list).1 ∧
      ((markTables state list).2 = .ok () → Touched (markTables state list).1 list) := by
  induction list generalizing state with
  | nil => exact ⟨sound, Marked.refl, nofun⟩
  | cons name rest known =>
    unfold markTables
    split
    case h_1 none_ =>
      obtain ⟨fine, marked, touched⟩ := known sound
      refine ⟨fine, marked, fun ok => forall_mem_cons.mpr ⟨?_, touched ok⟩⟩
      intro table ids found grad
      rw [marked.tables] at found
      rw [found, Option.bind_some, grad] at none_
      cases none_
    case h_2 => exact ⟨sound, Marked.refl, nofun⟩
    case h_3 ids sparse =>
      obtain ⟨table, found, grad⟩ := Option.bind_eq_some_iff.mp sparse
      obtain ⟨middle, same, fine, marked, dirty, here, inside⟩ := mark_one sound found grad
      rw [← same]
      obtain ⟨fine', marked', touched⟩ := known fine
      refine ⟨fine', marked.trans marked', fun ok => forall_mem_cons.mpr ⟨?_, touched ok⟩⟩
      intro table' ids' found' grad'
      rw [(marked.trans marked').tables, found] at found'
      cases found'
      rw [grad] at grad'
      cases grad'
      obtain ⟨dirty', there, more⟩ := marked'.grows name dirty here
      exact ⟨dirty', there, fun _ mem => more (inside mem)⟩

/-- After `mark_touched`, all rows under gradients are dirty. -/
theorem markTouched_ok (sound : Sound finite baseline state) :
    Sound finite baseline (markTouched state).1 ∧ (markTouched state).1.tables = state.tables ∧
      ((markTouched state).2 = .ok () → Touched (markTouched state).1 (names state.tables)) := by
  unfold markTouched
  split_ifs with other
  · exact ⟨sound, rfl, nofun⟩
  · obtain ⟨fine, marked, touched⟩ := markTables_ok sound
    exact ⟨fine, marked.tables, touched⟩

theorem Stepped.sound (stepped : Stepped finite state after) (sound : Sound finite baseline state)
    (touched : Touched state (Engram.names state.tables)) : Sound finite baseline after := by
  refine ⟨stepped.names.trans sound.tables, by rw [stepped.dirty]; exact sound.dirty, ?_⟩
  intro name rows width shape
  obtain ⟨old, dirty, found, marked, fine⟩ := sound.each name rows width shape
  obtain ⟨new, there, grad, length, changes⟩ := stepped.tables name old found
  refine ⟨new, dirty, there, by rw [stepped.dirty]; exact marked, length.trans fine.length, fine.ids,
    fun id fresh => ?_, fun id row found' => ?_, fun ids same => fine.grad ids (grad.symm.trans same)⟩
  · rcases changes id with same | ⟨⟨ids, under, mem⟩, -⟩
    · rw [same]
      exact fine.clean id fresh
    · obtain ⟨dirty', marked', inside⟩ :=
        touched name (mem_keys.mpr ⟨old, found⟩) old ids found under
      rw [marked] at marked'
      cases marked'
      exact absurd (inside mem) fresh
  · rcases changes id with same | ⟨-, whole⟩
    · exact fine.finite id row (same.symm.trans found')
    · exact whole row found'

theorem Backward.sound (changed : Backward state after) (sound : Sound finite baseline state) :
    Sound finite baseline after := by
  refine ⟨changed.names.trans sound.tables, by rw [changed.dirty]; exact sound.dirty, ?_⟩
  intro name rows width shape
  obtain ⟨old, dirty, found, marked, fine⟩ := sound.each name rows width shape
  obtain ⟨new, there, same, within⟩ := changed.tables name old found
  refine ⟨new, dirty, there, by rw [changed.dirty]; exact marked, ?_, fine.ids, ?_, ?_, ?_⟩
  · rw [same]
    exact fine.length
  · rw [same]
    exact fine.clean
  · rw [same]
    exact fine.finite
  · rw [← fine.length]
    exact within

/-! ### Snapshots -/

structure Holds (table : RoleEmbedding Row) (dirty : List ℤ) (indices : Tensor ℤ)
    (values : Tensor Row) : Prop where
  ids : indices.items = dirty
  rows : ∀ id, (indices.items.zip values.items).lookup id = if id ∈ dirty then rowAt table.weight id else none

variable {width : ℕ}

theorem tableRecord_ok (sound : Sound finite baseline state)
    (shape : baseline.shapes.get? name = some (rows, width)) :
    ∃ table dirty indices values, state.tables.get? name = some table ∧
      state.dirty.get? name = some dirty ∧
      tableRecord baseline state name = some (.rows indices values) ∧
      Fits finite rows width baseline.dtype indices values ∧ Holds table dirty indices values := by
  obtain ⟨table, dirty, found, marked, fine⟩ := sound.each name rows width shape
  have within : Within dirty table.weight.length := by
    rw [fine.length]
    exact fine.ids.within
  obtain ⟨values, selected⟩ := indexSelect_some within
  have length := indexSelect_length selected
  refine ⟨table, dirty, ⟨true, .int64, [dirty.length], dirty, fun _ _ same => (cons.inj same).1⟩,
    ⟨true, baseline.dtype, [values.length, width], values, fun _ _ same => (cons.inj same).1⟩,
    found, marked, ?_, ⟨⟨rfl, rfl, rfl, rfl, rfl, ?_, fun row mem => ?_⟩, fine.ids⟩, rfl,
    fun id => lookup_indexSelect selected⟩
  · unfold tableRecord
    rw [found, marked, shape]
    dsimp only
    rw [selected]
  · show [values.length, width] = [dirty.length, width]
    rw [length]
  · obtain ⟨id, -, found'⟩ := mem_indexSelect selected mem
    exact fine.finite id row found'

/-- The snapshot of a sound state is valid. -/
theorem stateDict_ok (sound : Sound finite baseline state) : ∃ delta,
    stateDict baseline state = some delta ∧
      Valid finite baseline.identity baseline.shapes baseline.dtype delta ∧
      ∀ name rows width, baseline.shapes.get? name = some (rows, width) →
        delta.tables.get? name = tableRecord baseline state name := by
  have each : ∀ name ∈ names state.dirty, ∃ record, tableRecord baseline state name = some record := by
    intro name mem
    rw [sound.dirty] at mem
    obtain ⟨⟨rows, width⟩, shape⟩ := mem_keys.mp mem
    obtain ⟨_, _, _, _, -, -, read, -⟩ := tableRecord_ok sound shape
    exact ⟨_, read⟩
  have whole : ∃ tables, collect (tableRecord baseline state) (names state.dirty) ∅ = some tables :=
    collect_some each
  obtain ⟨tables, collected⟩ := whole
  have keys : names tables = names baseline.shapes := by
    rw [← sound.dirty]
    exact keys_collect collected state.dirty.distinct fun _ _ => rfl
  have records : ∀ name rows width, baseline.shapes.get? name = some (rows, width) →
      tables.get? name = tableRecord baseline state name := by
    intro name rows width shape
    have mem : name ∈ names state.dirty := by
      rw [sound.dirty]
      exact mem_keys.mpr ⟨_, shape⟩
    rw [get?_collect collected, if_pos mem]
  refine ⟨⟨1, baseline.identity, tables⟩, ?_, ⟨rfl, rfl, ?_, fun name rows width shape => ?_⟩, records⟩
  · unfold stateDict
    rw [collected]
    rfl
  · rw [keys]
  · obtain ⟨_, _, indices, values, -, -, read, fits, -⟩ := tableRecord_ok sound shape
    exact ⟨indices, values, (records name rows width shape).trans read, fits⟩

/-! ### Loading -/

/-- The rows that are undone are those of the baseline. -/
theorem undo_ok {weight : List Row} (chunks : List (List ℤ)) (sized : original.length = rows)
    (length : weight.length = rows) (ids : chunks.flatten.Nodup) (within : Within chunks.flatten rows) :
    ∃ clean, undo original weight chunks = some clean ∧ clean.length = rows ∧
        ∀ id, rowAt clean id = if id ∈ chunks.flatten then rowAt original id else rowAt weight id := by
  induction chunks generalizing weight with
  | nil => exact ⟨weight, rfl, length, fun _ => rfl⟩
  | cons chunk rest known =>
    obtain ⟨distinct, later, -⟩ := nodup_append.mp ids
    have here : Within chunk original.length := by
      rw [sized]
      exact fun id mem => within id (mem_append_left _ mem)
    obtain ⟨values, selected⟩ := indexSelect_some here
    have keys : (chunk.zip values).map Prod.fst = chunk := keys_zip (indexSelect_length selected)
    have target : Within ((chunk.zip values).map Prod.fst) weight.length := by
      rw [keys, length, ← sized]
      exact here
    obtain ⟨middle, copied⟩ := indexCopy_some target
    obtain ⟨clean, undone, length', each⟩ := known ((indexCopy_length copied).trans length) later
      fun id mem => within id (mem_append_right _ mem)
    refine ⟨clean, ?_, length', fun id => ?_⟩
    · unfold undo
      rw [selected]
      dsimp only
      rw [copied]
      exact undone
    · have middle_row : rowAt middle id = if id ∈ chunk then rowAt original id else rowAt weight id := by
        rw [rowAt_indexCopy (by rw [keys]; exact distinct) copied, lookup_indexSelect selected]
        split_ifs with mem
        · obtain ⟨row, found⟩ := Option.isSome_iff_exists.mp (rowAt_isSome.mpr (here id mem))
          rw [found, some_or]
        · rw [none_or]
      rw [each id, middle_row, flatten_cons]
      by_cases inside : id ∈ rest.flatten
      · rw [if_pos inside, if_pos (mem_append_right _ inside)]
      · simp [inside]

/-- What a table is after a record was loaded. -/
structure Loaded (original : List Row) (indices : Tensor ℤ) (values : Tensor Row) (rows : ℕ)
    (table : RoleEmbedding Row) (dirty : List ℤ) : Prop where
  dirty : dirty = indices.items
  grad : table.grad = none
  length : table.weight.length = rows
  row : ∀ id, rowAt table.weight id = ((indices.items.zip values.items).lookup id).or (rowAt original id)

variable {delta : Delta Identity Row}

theorem loadTable_ok (sound : Sound finite baseline state)
    (shape : baseline.shapes.get? name = some (rows, width)) {indices : Tensor ℤ} {values : Tensor Row}
    (record : delta.tables.get? name = some (.rows indices values))
    (fits : Fits finite rows width baseline.dtype indices values) : ∃ table,
      loadTable baseline delta state name = some { state with
        tables := state.tables.modify name fun _ => table
        dirty := state.dirty.modify name fun _ => indices.items } ∧
      Loaded (baseline.view name) indices values rows table indices.items := by
  obtain ⟨table, dirty, found, marked, fine⟩ := sound.each name rows width shape
  have chunks := split_flatten chunkRows dirty
  obtain ⟨clean, undone, length, row⟩ := undo_ok (split chunkRows dirty)
    (baseline.sized name rows width shape) fine.length
    (by rw [chunks]; exact fine.ids.nodup) (by rw [chunks]; exact fine.ids.within)
  have keys : (indices.items.zip values.items).map Prod.fst = indices.items :=
    keys_zip (values.sized _ _ fits.values_shape)
  have copied_ : ∃ weight, indexCopy clean (indices.items.zip values.items) = some weight :=
    indexCopy_some (by rw [keys, length]; exact fits.ids.within)
  obtain ⟨weight, copied⟩ := copied_
  refine ⟨⟨weight, none⟩, ?_, rfl, rfl, (indexCopy_length copied).trans length, fun id => ?_⟩
  · unfold loadTable
    rw [found, marked, record]
    dsimp only
    rw [undone]
    dsimp only
    rw [copied]
  · have same : rowAt clean id = rowAt (baseline.view name) id := by
      rw [row id, chunks]
      split_ifs with touched
      · rfl
      · exact fine.clean id touched
    rw [rowAt_indexCopy (by rw [keys]; exact fits.ids.nodup) copied, same]

theorem Loaded.sound {indices : Tensor ℤ} {values : Tensor Row} {dtype : DType}
    {table : RoleEmbedding Row} {dirty : List ℤ}
    (loaded : Loaded original indices values rows table dirty)
    (fits : Fits finite rows width dtype indices values) (whole : ∀ row ∈ original, finite row = true) :
    TableSound finite original rows table dirty where
  length := loaded.length
  ids := by
    rw [loaded.dirty]
    exact fits.ids
  clean id fresh := by
    have keys : (indices.items.zip values.items).map Prod.fst = indices.items :=
      keys_zip (values.sized _ _ fits.values_shape)
    have absent : (indices.items.zip values.items).lookup id = none := by
      rw [lookup_eq_none_iff]
      intro entry mem
      rw [bne_iff_ne]
      rintro rfl
      rw [loaded.dirty, ← keys] at fresh
      exact fresh (mem_map_of_mem mem)
    rw [loaded.row id, absent, none_or]
  finite id row found := by
    rw [loaded.row id] at found
    rcases Option.or_eq_some_iff.mp found with held | ⟨-, kept⟩
    · exact fits.finite_values row (of_mem_zip (mem_of_lookup held)).2
    · exact whole row (rowAt_mem kept)
  grad ids wrong := by
    rw [loaded.grad] at wrong
    cases wrong

/-- What a state is after a payload was loaded. -/
structure LoadedState (baseline : Baseline Identity Row) (delta : Delta Identity Row)
    (after : EngramState Row) (list : List String) : Prop where
  each : ∀ name ∈ list, ∀ rows width, baseline.shapes.get? name = some (rows, width) →
    ∃ table indices values, after.tables.get? name = some table ∧
      after.dirty.get? name = some indices.items ∧
      delta.tables.get? name = some (.rows indices values) ∧
      Loaded (baseline.view name) indices values rows table indices.items

variable (whole : ∀ name row, row ∈ baseline.view name → finite row = true)

section

variable (sound : Sound finite baseline state)
  (valid : Valid finite baseline.identity baseline.shapes baseline.dtype delta)
include sound valid

include whole in
/-- The state after one table was loaded. -/
theorem loadTable_sound (mem : name ∈ names baseline.shapes) :
    ∃ after, loadTable baseline delta state name = some after ∧
      after.role = state.role ∧ Sound finite baseline after ∧ LoadedState baseline delta after [name] ∧
      ∀ other, other ≠ name → after.tables.get? other = state.tables.get? other ∧
        after.dirty.get? other = state.dirty.get? other := by
  obtain ⟨⟨rows, width⟩, shape⟩ := mem_keys.mp mem
  obtain ⟨indices, values, record, fits⟩ := valid.records name rows width shape
  obtain ⟨table, accepted, loaded⟩ := loadTable_ok sound shape record fits
  obtain ⟨old, dirty, found, marked, -⟩ := sound.each name rows width shape
  have here : (state.tables.modify name fun _ => table).get? name = some table := by
    rw [get?_modify, found, map_some, if_pos rfl]
  have ids : (state.dirty.modify name fun _ => indices.items).get? name = some indices.items := by
    rw [get?_modify, marked, map_some, if_pos rfl]
  refine ⟨_, accepted, rfl, ⟨names_modify.trans sound.tables, names_modify.trans sound.dirty, ?_⟩,
    ⟨fun other same rows' width' shape' => ?_⟩, fun other differs => ⟨?_, ?_⟩⟩
  · intro other rows' width' shape'
    by_cases same : other = name
    · subst same
      rw [shape] at shape'
      cases shape'
      exact ⟨table, indices.items, here, ids, loaded.sound fits (whole other)⟩
    · obtain ⟨table', dirty', found', marked', fine⟩ := sound.each other rows' width' shape'
      refine ⟨table', dirty', ?_, ?_, fine⟩
      all_goals rw [get?_modify_ne same]
      · exact found'
      · exact marked'
  · rw [mem_singleton] at same
    subst same
    rw [shape] at shape'
    cases shape'
    exact ⟨table, indices, values, here, ids, record, loaded⟩
  all_goals exact get?_modify_ne differs

include whole in
theorem loadTables_ok {list : List String} (distinct : list.Nodup)
    (inside : ∀ name ∈ list, name ∈ names baseline.shapes) :
    ∃ after, loadTables baseline delta state list = (after, .ok ()) ∧ after.role = state.role ∧
      Sound finite baseline after ∧ LoadedState baseline delta after list ∧
      ∀ other, other ∉ list → after.tables.get? other = state.tables.get? other ∧
        after.dirty.get? other = state.dirty.get? other := by
  induction list generalizing state with
  | nil => exact ⟨state, rfl, rfl, sound, ⟨nofun⟩, fun _ _ => ⟨rfl, rfl⟩⟩
  | cons name rest known =>
    obtain ⟨here, later⟩ := forall_mem_cons.mp inside
    obtain ⟨unused, others⟩ := nodup_cons.mp distinct
    obtain ⟨middle, accepted, role, fine, loaded, kept⟩ := loadTable_sound whole sound valid here
    obtain ⟨after, ran, role', fine', loaded', kept'⟩ := known fine others later
    refine ⟨after, ?_, role'.trans role, fine', ⟨?_⟩, fun other fresh => ?_⟩
    · unfold loadTables
      rw [accepted]
      exact ran
    · refine forall_mem_cons.mpr ⟨?_, loaded'.each⟩
      rw [(kept' name unused).1, (kept' name unused).2]
      exact loaded.each name (mem_singleton_self name)
    · rw [mem_cons, not_or] at fresh
      exact ⟨(kept' other fresh.2).1.trans (kept other fresh.1).1,
        (kept' other fresh.2).2.trans (kept other fresh.1).2⟩

end

section Payload

variable [DecidableEq Identity] {payload : Payload Identity Row}

theorem loadStateDict_refused {error : String} (refused : validate finite baseline state payload = .error error) :
    loadStateDict finite baseline state payload = (state, .error error) := by
  unfold loadStateDict
  rw [refused]

theorem validate_ok : validate finite baseline state payload = .ok () ↔
    state.role ≠ .reference ∧ ∃ delta, payload = .delta delta ∧
      Valid finite baseline.identity baseline.shapes baseline.dtype delta := by
  unfold validate
  split_ifs with reference
  · exact ⟨nofun, fun fine => absurd reference fine.1⟩
  · rw [validateDelta_ok]
    exact ⟨fun fine => ⟨reference, fine⟩, fun fine => fine.2⟩

include whole in
theorem loadStateDict_ok (sound : Sound finite baseline state)
    (accepted : validate finite baseline state (.delta delta) = .ok ()) :
    ∃ after, loadStateDict finite baseline state (.delta delta) = (after, .ok ()) ∧
      after.role = state.role ∧ Sound finite baseline after ∧
      LoadedState baseline delta after (names baseline.shapes) := by
  obtain ⟨-, _, same, valid⟩ := validate_ok.mp accepted
  cases same
  have distinct : (names state.tables).Nodup := state.tables.distinct
  obtain ⟨after, ran, role, fine, loaded, -⟩ := loadTables_ok whole sound valid distinct
    fun name mem => by rw [← sound.tables]; exact mem
  refine ⟨after, ?_, role, fine, by rw [← sound.tables]; exact loaded⟩
  unfold loadStateDict
  rw [accepted]
  exact ran

include whole in
/-- A state stays sound, whatever is loaded. -/
theorem loadStateDict_sound (sound : Sound finite baseline state) :
    Sound finite baseline (loadStateDict finite baseline state payload).1 := by
  rcases checked : validate finite baseline state payload with error | ⟨⟩
  · rw [loadStateDict_refused checked]
    exact sound
  · obtain ⟨-, delta, rfl, -⟩ := validate_ok.mp checked
    obtain ⟨after, ran, -, fine, -⟩ := loadStateDict_ok whole sound checked
    rw [ran]
    exact fine

end Payload

structure Delta.Same (first second : Delta Identity Row) : Prop where
  format : first.format = second.format
  base : first.base = second.base
  names : (names first.tables).Perm (names second.tables)
  tables : ∀ name, first.tables.get? name = second.tables.get? name

/-- A snapshot of what was loaded is what was loaded. -/
theorem LoadedState.snapshot (loaded : LoadedState baseline delta after (names baseline.shapes))
    (sound : Sound finite baseline after)
    (valid : Valid finite baseline.identity baseline.shapes baseline.dtype delta) :
    ∃ again, stateDict baseline after = some again ∧ again.Same delta := by
  obtain ⟨again, taken, valid', records⟩ := stateDict_ok sound
  refine ⟨again, taken, valid'.format.trans valid.format.symm, valid'.base.trans valid.base.symm,
    valid'.names.trans valid.names.symm, fun name => ?_⟩
  by_cases mem : name ∈ names baseline.shapes
  · obtain ⟨⟨rows, width⟩, shape⟩ := mem_keys.mp mem
    obtain ⟨table, indices, values, found, dirty, record, fine⟩ := loaded.each name mem rows width shape
    obtain ⟨indices', values', record', fits⟩ := valid.records name rows width shape
    rw [record] at record'
    cases record'
    rw [records name rows width shape, record]
    have length := values.sized _ _ fits.values_shape
    have selected : indexSelect table.weight indices.items = some values.items := by
      refine indexSelect_iff.mpr ((forall₂_lookup_zip length.symm fits.ids.nodup).imp ?_)
      intro id row held
      rw [fine.row id, held, some_or]
    unfold tableRecord
    rw [found, dirty, shape]
    dsimp only
    rw [selected]
    obtain ⟨cpu, dtype, shape', items, sized⟩ := indices
    obtain ⟨cpu', dtype', shape'', items', sized'⟩ := values
    obtain rfl : cpu = true := fits.indices_cpu
    obtain rfl : dtype = .int64 := fits.indices_dtype
    obtain rfl : shape' = [items.length] := fits.indices_shape
    obtain rfl : cpu' = true := fits.values_cpu
    obtain rfl : dtype' = baseline.dtype := fits.values_dtype
    obtain rfl : shape'' = [items.length, width] := fits.values_shape
    simp only [length]
  · have absent : ∀ delta : Delta Identity Row, (names delta.tables).Perm (names baseline.shapes) →
        delta.tables.get? name = none := by
      intro delta same
      rw [Option.eq_none_iff_forall_ne_some]
      intro record found
      exact mem (same.mem_iff.mp (mem_keys.mpr ⟨record, found⟩))
    rw [absent again valid'.names, absent delta valid.names]

theorem LoadedState.restored {ghost : EngramState Row} (sound : Sound finite baseline ghost)
    (taken : stateDict baseline ghost = some delta)
    (loaded : LoadedState baseline delta after (names baseline.shapes))
    (shape : baseline.shapes.get? name = some (rows, width)) : ∃ table old,
      after.tables.get? name = some table ∧ ghost.tables.get? name = some old ∧
        table.weight = old.weight := by
  obtain ⟨delta', taken', -, records⟩ := stateDict_ok sound
  rw [taken] at taken'
  cases taken'
  obtain ⟨table, indices, values, found, -, record, fine⟩ :=
    loaded.each name (mem_keys.mpr ⟨_, shape⟩) rows width shape
  obtain ⟨old, dirty, indices', values', there, marked, read, -, holds⟩ := tableRecord_ok sound shape
  rw [records name rows width shape, read] at record
  cases record
  refine ⟨table, old, found, there, rowAt_ext fun id => ?_⟩
  obtain ⟨_, _, there', marked', intact⟩ := sound.each name rows width shape
  rw [there] at there'
  rw [marked] at marked'
  cases there'
  cases marked'
  rw [fine.row id, holds.rows id]
  split_ifs with touched
  · have inside : 0 ≤ id ∧ id < old.weight.length := by
      rw [intact.length]
      exact intact.ids.within id touched
    obtain ⟨row, held⟩ := Option.isSome_iff_exists.mp (rowAt_isSome.mpr inside)
    rw [held, some_or]
  · exact (intact.clean id touched).symm

/-! ### Steps -/

/-- The states, and the snapshots that were taken, each with the state it was taken from. -/
structure World (Agent Identity Row : Type) where
  agents : Agent → EngramState Row
  snapshots : List (Delta Identity Row × EngramState Row)

variable {Agent : Type} [DecidableEq Agent] [DecidableEq Identity] (finite) (baseline)

def World.put (world : World Agent Identity Row) (agent : Agent) (after : EngramState Row) :
    World Agent Identity Row :=
  { world with agents := Function.update world.agents agent after }

/-- The steps of the states that share a baseline. -/
inductive Step : World Agent Identity Row → World Agent Identity Row → Prop
  | backward (world : World Agent Identity Row) (agent : Agent) (after : EngramState Row)
      (changed : Backward (world.agents agent) after) :
      Step world (world.put agent after)
  | refused (world : World Agent Identity Row) (agent : Agent) (error : String)
      (raised : (markTouched (world.agents agent)).2 = .error error) :
      Step world (world.put agent (markTouched (world.agents agent)).1)
  | update (world : World Agent Identity Row) (agent : Agent) (after : EngramState Row)
      (marked : (markTouched (world.agents agent)).2 = .ok ())
      (stepped : Stepped finite (markTouched (world.agents agent)).1 after) :
      Step world (world.put agent after)
  | snapshot (world : World Agent Identity Row) (agent : Agent) (delta : Delta Identity Row)
      (taken : stateDict baseline (world.agents agent) = some delta) :
      Step world { world with snapshots := (delta, world.agents agent) :: world.snapshots }
  | load (world : World Agent Identity Row) (agent : Agent) (payload : Payload Identity Row) :
      Step world (world.put agent (loadStateDict finite baseline (world.agents agent) payload).1)

/-- The first world: each state has its role, and no snapshot was taken. -/
def World.start (role : Agent → Role) : World Agent Identity Row :=
  ⟨fun agent => EngramState.init baseline (role agent), []⟩


/-! ### Runs -/

/-- All states are sound, and so were those that snapshots were taken from. -/
structure World.Sound (finite : Row → Bool) (baseline : Baseline Identity Row)
    (world : World Agent Identity Row) : Prop where
  agents : ∀ agent, Engram.Sound finite baseline (world.agents agent)
  snapshots : ∀ delta ghost, (delta, ghost) ∈ world.snapshots →
    Engram.Sound finite baseline ghost ∧ stateDict baseline ghost = some delta

variable {finite} {baseline} {world next : World Agent Identity Row} {agent : Agent}

omit [DecidableEq Identity] in
theorem World.Sound.put (sound : world.Sound finite baseline) (fine : Engram.Sound finite baseline after) :
    (world.put agent after).Sound finite baseline := by
  refine ⟨fun other => ?_, sound.snapshots⟩
  by_cases same : other = agent
  · subst same
    show Engram.Sound finite baseline (Function.update world.agents other after other)
    rw [Function.update_self]
    exact fine
  · show Engram.Sound finite baseline (Function.update world.agents agent after other)
    rw [Function.update_of_ne same]
    exact sound.agents other

include whole in
theorem Step.sound (step : Step finite baseline world next) (sound : world.Sound finite baseline) :
    next.Sound finite baseline := by
  cases step with
  | backward agent after changed => exact sound.put (changed.sound (sound.agents agent))
  | refused agent error raised => exact sound.put (markTouched_ok (sound.agents agent)).1
  | update agent after marked stepped =>
    obtain ⟨fine, same, touched⟩ := markTouched_ok (sound.agents agent)
    refine sound.put (stepped.sound fine ?_)
    rw [same]
    exact touched marked
  | snapshot agent delta taken =>
    refine ⟨sound.agents, fun delta' ghost mem => ?_⟩
    rcases mem_cons.mp mem with same | mem
    · cases same
      exact ⟨sound.agents agent, taken⟩
    · exact sound.snapshots delta' ghost mem
  | load agent payload => exact sound.put (loadStateDict_sound whole (sound.agents agent))

include whole in
theorem World.sound {role : Agent → Role}
    (reached : Relation.ReflTransGen (Step finite baseline) (World.start baseline role) world) :
    world.Sound finite baseline := by
  induction reached with
  | refl => exact ⟨fun agent => init_sound whole (role agent), nofun⟩
  | tail _ step known => exact step.sound whole known

/-- **The private tables of the policies**, after any updates, snapshots and loads: a table is the
baseline outside its dirty rows, a snapshot is always valid, a payload that fails the validation
changes nothing, a payload that passes is loaded and is then the snapshot of the state, and loading
a snapshot brings back all rows of the state it was taken from. -/
theorem policy_state (finite : Row → Bool) (baseline : Baseline Identity Row)
    (whole : ∀ name row, row ∈ baseline.view name → finite row = true) (role : Agent → Role)
    (world : World Agent Identity Row)
    (reached : Relation.ReflTransGen (Step finite baseline) (World.start baseline role) world)
    (agent : Agent) :
    (∀ name rows width, baseline.shapes.get? name = some (rows, width) → ∃ table dirty,
      (world.agents agent).tables.get? name = some table ∧
      (world.agents agent).dirty.get? name = some dirty ∧
      table.weight.length = rows ∧ dirty.Pairwise (· < ·) ∧
      ∀ id, id ∉ dirty → rowAt table.weight id = rowAt (baseline.view name) id) ∧
    (∃ delta, stateDict baseline (world.agents agent) = some delta ∧
      validateDelta finite (.delta delta) baseline.identity baseline.shapes baseline.dtype = .ok ()) ∧
    (∀ payload error, validate finite baseline (world.agents agent) payload = .error error →
      loadStateDict finite baseline (world.agents agent) payload = (world.agents agent, .error error)) ∧
    (∀ delta, validate finite baseline (world.agents agent) (.delta delta) = .ok () → ∃ after again,
      loadStateDict finite baseline (world.agents agent) (.delta delta) = (after, .ok ()) ∧
        stateDict baseline after = some again ∧ again.Same delta) ∧
    (∀ delta ghost, (delta, ghost) ∈ world.snapshots → (world.agents agent).role ≠ .reference →
      ∃ after, loadStateDict finite baseline (world.agents agent) (.delta delta) = (after, .ok ()) ∧
        ∀ name rows width, baseline.shapes.get? name = some (rows, width) → ∃ table old,
          after.tables.get? name = some table ∧ ghost.tables.get? name = some old ∧
            table.weight = old.weight) := by
  have sound := World.sound whole reached
  have here := sound.agents agent
  refine ⟨fun name rows width shape => ?_, ?_, fun payload error => loadStateDict_refused,
    fun delta accepted => ?_, fun delta ghost taken learner => ?_⟩
  · obtain ⟨table, dirty, found, marked, fine⟩ := here.each name rows width shape
    exact ⟨table, dirty, found, marked, fine.length, fine.ids.increasing, fine.clean⟩
  · obtain ⟨delta, taken, valid, -⟩ := stateDict_ok here
    exact ⟨delta, taken, validateDelta_ok.mpr ⟨delta, rfl, valid⟩⟩
  · obtain ⟨after, ran, -, fine, loaded⟩ := loadStateDict_ok whole here accepted
    obtain ⟨-, _, same, valid⟩ := validate_ok.mp accepted
    cases same
    obtain ⟨again, taken, same⟩ := loaded.snapshot fine valid
    exact ⟨after, again, ran, taken, same⟩
  · obtain ⟨intact, saved⟩ := sound.snapshots delta ghost taken
    obtain ⟨delta', saved', valid, -⟩ := stateDict_ok intact
    rw [saved] at saved'
    cases saved'
    have accepted := validate_ok.mpr ⟨learner, delta, rfl, valid⟩
    obtain ⟨after, ran, -, -, loaded⟩ := loadStateDict_ok whole here accepted
    exact ⟨after, ran, fun name rows width => loaded.restored intact saved⟩

def sampleBaseline : Baseline Unit ℕ where
  identity := ()
  shapes := (∅ : Shapes).push "1" (2, 1)
  dtype := .float32
  view _ := [10, 20]
  sized name rows width shape := by
    rw [get?_push] at shape
    split_ifs at shape
    · cases shape
      rfl
    · cases shape

def sampleState (role : Role) (row : ℕ) (grad : Option Gradient) (dirty : List ℤ) : EngramState ℕ where
  role := role
  tables := (∅ : OrderedTable String (RoleEmbedding ℕ)).push "1" ⟨[10, row], grad⟩
  dirty := (∅ : OrderedTable String (List ℤ)).push "1" dirty

/-- An actor loads the row that a learner has changed. -/
theorem actor_follows : ∃ (world : World Bool Unit ℕ) (after : EngramState ℕ) (table : RoleEmbedding ℕ)
    (delta : Delta Unit ℕ), (delta, sampleState .learner 25 (some (.sparse [1])) [1]) ∈ world.snapshots ∧
      loadStateDict (fun _ => true) sampleBaseline (world.agents false) (.delta delta) = (after, .ok ()) ∧
      after.tables.get? "1" = some table ∧ table.weight = [10, 25] := by
  have changed : Backward (sampleState .learner 20 none []) (sampleState .learner 20 (some (.sparse [1])) []) := by
    refine ⟨rfl, rfl, rfl, rfl, fun name old found => ?_⟩
    unfold sampleState at found
    rw [get?_push] at found
    split_ifs at found with same
    · cases found
      subst same
      refine ⟨_, get?_push_self, rfl, fun ids same => ?_⟩
      cases same
      exact fun id member => by
        rw [mem_singleton.mp member]
        exact ⟨by decide, by decide⟩
    · cases found
  have stepped : Stepped (fun _ => true) (sampleState .learner 20 (some (.sparse [1])) [1])
      (sampleState .learner 25 (some (.sparse [1])) [1]) := by
    refine ⟨rfl, rfl, rfl, fun name old found => ?_⟩
    unfold sampleState at found
    rw [get?_push] at found
    split_ifs at found with same
    · cases found
      subst same
      refine ⟨_, get?_push_self, rfl, rfl, fun id => ?_⟩
      by_cases touched : id = 1
      · exact Or.inr ⟨⟨[1], rfl, mem_singleton.mpr touched⟩, fun _ _ => rfl⟩
      · left
        unfold rowAt
        split_ifs with positive
        · rcases natural : id.toNat with _ | _ | index
          · rfl
          · omega
          · rfl
        · rfl
    · cases found
  obtain ⟨delta, taken⟩ : ∃ delta, stateDict sampleBaseline
    (sampleState .learner 25 (some (.sparse [1])) [1]) = some delta := ⟨_, rfl⟩
  let first : World Bool Unit ℕ := World.start sampleBaseline fun agent => bif agent then .learner else .actor
  let second := first.put true (sampleState .learner 20 (some (.sparse [1])) [])
  let third := second.put true (sampleState .learner 25 (some (.sparse [1])) [1])
  have one : Step (fun _ => true) sampleBaseline first second := Step.backward first true _ changed
  have two : Step (fun _ => true) sampleBaseline second third := by
    refine Step.update second true _ rfl ?_
    exact stepped
  have three : Step (fun _ => true) sampleBaseline third
      { third with snapshots := (delta, third.agents true) :: third.snapshots } :=
    Step.snapshot third true delta taken
  obtain ⟨after, ran, same⟩ := (policy_state (fun _ => true) sampleBaseline (fun _ _ _ => rfl)
    (fun agent => bif agent then .learner else .actor) _
    (((Relation.ReflTransGen.single one).tail two).tail three) false).2.2.2.2 delta _ mem_cons_self
    nofun
  obtain ⟨table, old, found, there, weight⟩ := same "1" 2 1 get?_push_self
  refine ⟨_, after, table, delta, mem_cons_self, ran, found, weight.trans ?_⟩
  cases (get?_push_self.symm.trans there)
  rfl

end TinyDSV41.Engram
