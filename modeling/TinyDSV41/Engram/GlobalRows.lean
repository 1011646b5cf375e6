/-
**The global rows of an export.**

Each owner of a table has a span of its rows and, by local index, the rows of that span which were
touched. The export shifts the indices, joins the owners in the order of their spans and validates the
result.

* `globalRows` — the checks of the owners, the joined tables, and the validation of the result.
* `global_rows` — which owners are accepted, and what the result holds.
-/

import TinyDSV41.Engram.Delta
import TinyDSV41.Lib.Slices
import TinyDSV41.Lib.Spans

namespace TinyDSV41.Engram

open List Lib OrderedTable Span List.Forall₂
open List.Perm (refl)

/-! ### Owners -/

/-- The layout of a table at its owner. A row bound is `none` if it is no integer. -/
structure Layout where
  rowStart : Option ℤ
  rowStop : Option ℤ
  globalShape : List ℤ
  localShape : List ℤ
  dtype : DType
deriving DecidableEq

abbrev Schema := OrderedTable String Layout

/-- What an owner has saved. `malformed` is any value without exactly these fields. -/
inductive Snapshot (Row : Type)
  | malformed
  | rows (format : ℤ) (schema : Schema) (tables : OrderedTable String (Record Row))

/-- An owner: its schema in the manifest, and what `_rank_payload` reads of it. -/
structure Owner (Row : Type) where
  schema : Schema
  payload : Except String (Snapshot Row)

structure Part (Row : Type) where
  start : ℤ
  stop : ℤ
  indices : Tensor ℤ
  values : Tensor Row

variable {Identity Row : Type} [DecidableEq Identity] (finite : Row → Bool)

def Part.span (part : Part Row) : Span := (part.start, part.stop)

def checkLayout (layout : Layout) (rows width : ℕ) (dtype : DType) : Option (ℤ × ℤ) :=
  match layout.rowStart, layout.rowStop with
  | some start, some stop =>
    if (0 ≤ start ∧ start ≤ stop ∧ stop ≤ rows) ∧ layout.globalShape = [(rows : ℤ), width] ∧
        layout.localShape = [stop - start, (width : ℤ)] ∧ layout.dtype = dtype then
      some (start, stop)
    else none
  | _, _ => none

def ownerPart (base : Identity) (dtype : DType) (schema : Schema)
    (tables : OrderedTable String (Record Row)) (name : String) (rows width : ℕ) :
    Except String (Part Row) :=
  match schema.get? name, tables.get? name with
  | some layout, some record =>
    match checkLayout layout rows width dtype with
    | none => .error "SFT Engram owner bounds, dtype or shape differ"
    | some (start, stop) =>
      match validateDelta finite (.delta ⟨1, base, (∅ : OrderedTable String (Record Row)).push name record⟩)
          base ((∅ : Shapes).push name ((stop - start).toNat, width)) dtype with
      | .error error => .error error
      | .ok () =>
        match record with
        | .malformed | .untyped => .error "invalid Engram row record"
        | .rows indices values => .ok ⟨start, stop, indices, values⟩
  | _, _ => .error "KeyError"

def ownerTables (base : Identity) (dtype : DType) (schema : Schema)
    (tables : OrderedTable String (Record Row)) :
    List (String × ℕ × ℕ) → Except String (List (String × Part Row))
  | [] => .ok []
  | (name, rows, width) :: rest =>
    match ownerPart finite base dtype schema tables name rows width with
    | .error error => .error error
    | .ok part =>
      match ownerTables base dtype schema tables rest with
      | .error error => .error error
      | .ok parts => .ok ((name, part) :: parts)

def ownerParts (base : Identity) (shapes : Shapes) (dtype : DType) (owner : Owner Row) :
    Except String (List (String × Part Row)) :=
  match owner.payload with
  | .error error => .error error
  | .ok .malformed => .error "SFT Engram owner schema or table set differs"
  | .ok (.rows format schema tables) =>
    if format ≠ 1 ∨ ¬ schema.items.Perm owner.schema.items ∨
        ¬ (names owner.schema).Perm (names shapes) ∨ ¬ (names tables).Perm (names shapes) then
      .error "SFT Engram owner schema or table set differs"
    else ownerTables finite base dtype owner.schema tables shapes.items

def allParts (base : Identity) (shapes : Shapes) (dtype : DType) :
    List (Owner Row) → Except String (List (List (String × Part Row)))
  | [] => .ok []
  | owner :: rest =>
    match ownerParts finite base shapes dtype owner with
    | .error error => .error error
    | .ok parts =>
      match allParts base shapes dtype rest with
      | .error error => .error error
      | .ok others => .ok (parts :: others)

/-! ### Joined tables -/

/-- `torch.cat`, of tensors with equal types and widths. -/
def cat {Item : Type} : List (Tensor Item) → Except String (Tensor Item)
  | [] => .error "torch.cat(): expected a non-empty list of Tensors"
  | first :: rest => .ok {
      cpu := (first :: rest).all (·.cpu)
      dtype := first.dtype
      shape := ((first :: rest).flatMap (·.items)).length :: first.shape.tail
      items := (first :: rest).flatMap (·.items)
      sized := fun _ _ same => (cons.inj same).1 }

def Part.shifted (part : Part Row) : Tensor ℤ where
  cpu := part.indices.cpu
  dtype := part.indices.dtype
  shape := part.indices.shape
  items := part.indices.items.map (· + part.start)
  sized length rest same := by
    rw [length_map]
    exact part.indices.sized length rest same

def checkOwners (rows : ℕ) (stop : ℤ) : List (Part Row) → Except String Unit
  | [] =>
    if stop ≠ rows then .error "SFT Engram owners do not cover the original table" else .ok ()
  | part :: rest =>
    if part.start ≠ stop then .error "SFT Engram owners overlap or leave missing rows"
    else checkOwners rows part.stop rest

def sortParts (parts : List (Part Row)) : List (Part Row) :=
  parts.insertionSort fun first second => before first.span second.span

def joinTable (rows : ℕ) (parts : List (Part Row)) : Except String (Record Row) :=
  match checkOwners rows 0 (sortParts parts) with
  | .error error => .error error
  | .ok () =>
    match cat ((sortParts parts).map Part.shifted), cat ((sortParts parts).map Part.values) with
    | .error error, _ => .error error
    | _, .error error => .error error
    | .ok indices, .ok values => .ok (.rows indices values)

def partsOf (owners : List (List (String × Part Row))) (name : String) : List (Part Row) :=
  owners.filterMap fun parts => parts.lookup name

def joinTables (owners : List (List (String × Part Row))) (tables : OrderedTable String (Record Row)) :
    List (String × ℕ × ℕ) → Except String (OrderedTable String (Record Row))
  | [] => .ok tables
  | (name, rows, _) :: rest =>
    match joinTable rows (partsOf owners name) with
    | .error error => .error error
    | .ok record => joinTables owners (tables.push name record) rest

/-- `_global_rows`; the shapes and the type are those of the base. -/
def globalRows (owners : List (Owner Row)) (base : Identity) (shapes : Shapes) (dtype : DType) :
    Except String (Delta Identity Row) :=
  match allParts finite base shapes dtype owners with
  | .error error => .error error
  | .ok parts =>
    match joinTables parts ∅ shapes.items with
    | .error error => .error error
    | .ok tables =>
      match validateDelta finite (.delta ⟨1, base, tables⟩) base shapes dtype with
      | .error error => .error error
      | .ok () => .ok ⟨1, base, tables⟩

/-! ### Well-formed owners -/

/-- The rows of a table that an owner has saved. -/
def Owner.part? (owner : Owner Row) (name : String) : Option (Part Row) :=
  match owner.schema.get? name, owner.payload with
  | some ⟨some start, some stop, _, _, _⟩, .ok (.rows _ _ tables) =>
    match tables.get? name with
    | some (.rows indices values) => some ⟨start, stop, indices, values⟩
    | _ => none
  | _, _ => none

def parts (owners : List (Owner Row)) (name : String) : List (Part Row) :=
  owners.filterMap (·.part? name)

/-- The schema, the types, the widths and the values of an owner are as they should be. -/
structure WellFormed (finite : Row → Bool) (shapes : Shapes) (dtype : DType) (owner : Owner Row)
    (tables : OrderedTable String (Record Row)) : Prop where
  saved : ∃ schema, owner.payload = .ok (.rows 1 schema tables) ∧ schema.items.Perm owner.schema.items
  layouts : (names owner.schema).Perm (names shapes)
  records : (names tables).Perm (names shapes)
  typed : ∀ name rows width, shapes.get? name = some (rows, width) → ∃ start stop indices values,
      owner.schema.get? name
        = some ⟨some start, some stop, [(rows : ℤ), width], [stop - start, (width : ℤ)], dtype⟩ ∧
      tables.get? name = some (.rows indices values) ∧ Typed finite width dtype indices values

/-- The span of a part lies in the table, and its indices increase within the span. -/
structure Part.Local (part : Part Row) (rows : ℕ) : Prop where
  span : 0 ≤ part.start ∧ part.start ≤ part.stop ∧ part.stop ≤ rows
  ids : RowIds part.indices.items (part.stop - part.start).toNat

structure Divided (owners : List (Owner Row)) (name : String) (rows : ℕ) : Prop where
  inside : ∀ part ∈ parts owners name, part.Local rows
  tiles : Span.Tiles 0 rows ((parts owners name).map Part.span)
  clear : Span.Clear ((parts owners name).map Part.span)

variable {finite} {base : Identity} {shapes : Shapes} {dtype : DType} {owner : Owner Row}
  {owners : List (Owner Row)} {tables : OrderedTable String (Record Row)} {name : String}
  {rows width : ℕ} {part : Part Row}

/-- A table of an owner is accepted if its part is local. -/
theorem ownerPart_ok (well : WellFormed finite shapes dtype owner tables)
    (shape : shapes.get? name = some (rows, width)) :
    ownerPart finite base dtype owner.schema tables name rows width = .ok part ↔
      owner.part? name = some part ∧ part.Local rows := by
  obtain ⟨start, stop, indices, values, layout, record, typed⟩ := well.typed name rows width shape
  obtain ⟨schema, saved, -⟩ := well.saved
  have here : owner.part? name = some ⟨start, stop, indices, values⟩ := by
    unfold Owner.part?
    rw [layout, saved]
    dsimp only
    rw [record]
  unfold ownerPart
  rw [layout, record, here]
  unfold checkLayout
  dsimp only
  by_cases bounds : 0 ≤ start ∧ start ≤ stop ∧ stop ≤ rows
  · rw [if_pos ⟨bounds, rfl, rfl, rfl⟩]
    dsimp only
    have single : validateDelta finite
        (.delta ⟨1, base, (∅ : OrderedTable String (Record Row)).push name (.rows indices values)⟩) base
        ((∅ : Shapes).push name ((stop - start).toNat, width)) dtype = .ok () ↔
          RowIds indices.items (stop - start).toNat := by
      rw [validateDelta_ok]
      constructor
      · rintro ⟨_, same, valid⟩
        cases same
        obtain ⟨_, _, found, fits⟩ := valid.records name _ _ get?_push_self
        rw [get?_push_self] at found
        cases found
        exact fits.ids
      · intro ids
        refine ⟨_, rfl, rfl, rfl, refl _, fun other rows' width' found => ?_⟩
        rcases push_cases found with ⟨rfl, same⟩ | ⟨-, found⟩
        · cases same
          exact ⟨indices, values, get?_push_self, typed, ids⟩
        · cases found
    split
    case h_1 error refused =>
      refine ⟨nofun, fun fine => ?_⟩
      obtain ⟨same, local_⟩ := fine
      cases same
      rw [single.mpr local_.ids] at refused
      cases refused
    case h_2 accepted =>
      constructor
      · intro same
        cases same
        exact ⟨rfl, bounds, single.mp accepted⟩
      · rintro ⟨same, -⟩
        cases same
        rfl
  · rw [if_neg fun both => bounds both.1]
    refine ⟨nofun, fun fine => ?_⟩
    obtain ⟨same, local_⟩ := fine
    cases same
    exact absurd local_.span bounds

theorem ownerTables_ok {schema : Schema} :
    ownerTables finite base dtype schema tables list = .ok found ↔
      List.Forall₂ (fun table entry => entry.1 = table.1 ∧
        ownerPart finite base dtype schema tables table.1 table.2.1 table.2.2 = .ok entry.2)
        list found := by
  induction list generalizing found with
  | nil =>
    rw [forall₂_nil_left_iff]
    unfold ownerTables
    exact ⟨fun same => (by cases same; rfl), fun same => by rw [same]⟩
  | cons table rest known =>
    obtain ⟨name, rows, width⟩ := table
    rw [forall₂_cons_left_iff]
    unfold ownerTables
    split
    case h_1 error refused =>
      refine ⟨nofun, ?_⟩
      rintro ⟨entry, others, ⟨-, accepted⟩, -⟩
      rw [refused] at accepted
      cases accepted
    case h_2 part accepted =>
      split
      case h_1 error refused =>
        refine ⟨nofun, ?_⟩
        rintro ⟨entry, others, -, later, -⟩
        rw [known.mpr later] at refused
        cases refused
      case h_2 others later =>
        constructor
        · intro same
          cases same
          exact ⟨(name, part), others, ⟨rfl, accepted⟩, known.mp later, rfl⟩
        · rintro ⟨⟨_, part'⟩, others', ⟨rfl, accepted'⟩, later', rfl⟩
          rw [accepted] at accepted'
          cases accepted'
          rw [known.mpr later'] at later
          cases later
          rfl

theorem lookup_of_tables
    (accepted : String → ℕ → ℕ → Part Row → Prop)
    (reads : List.Forall₂ (fun table entry => entry.1 = table.1 ∧
      accepted table.1 table.2.1 table.2.2 entry.2) list found)
    (distinct : (list.map Prod.fst).Nodup) (mem : (name, rows, width) ∈ list) :
    ∃ part, found.lookup name = some part ∧ accepted name rows width part := by
  induction reads with
  | nil => cases mem
  | @cons table entry list found first _ known =>
    obtain ⟨fresh, others⟩ := nodup_cons.mp distinct
    obtain ⟨entryName, part⟩ := entry
    obtain ⟨same, accepted⟩ := first
    obtain rfl : entryName = table.1 := same
    rcases mem_cons.mp mem with rfl | mem
    · exact ⟨part, lookup_cons_self, accepted⟩
    · obtain ⟨part', there, accepted'⟩ := known others mem
      have differs : name ≠ table.1 := by
        rintro rfl
        exact fresh (mem_map.mpr ⟨_, mem, rfl⟩)
      exact ⟨part', by rw [lookup_cons, beq_false_of_ne differs]; exact there, accepted'⟩

theorem ownerParts_ok (well : WellFormed finite shapes dtype owner tables)
    (read : ownerParts finite base shapes dtype owner = .ok found) :
    ∀ name rows width, shapes.get? name = some (rows, width) →
      ∃ part, found.lookup name = some part ∧ owner.part? name = some part ∧ part.Local rows := by
  obtain ⟨schema, saved, same⟩ := well.saved
  unfold ownerParts at read
  rw [saved] at read
  dsimp only at read
  split_ifs at read with differs
  intro name rows width shape
  obtain ⟨part, there, accepted⟩ := lookup_of_tables (fun name rows width part =>
      ownerPart finite base dtype owner.schema tables name rows width = .ok part)
    (ownerTables_ok.mp read) shapes.distinct (mem_items.mpr shape)
  obtain ⟨here, local_⟩ := (ownerPart_ok well shape).mp accepted
  exact ⟨part, there, here, local_⟩

theorem ownerParts_some (well : WellFormed finite shapes dtype owner tables)
    (locals : ∀ name rows width, shapes.get? name = some (rows, width) → ∀ part,
      owner.part? name = some part → part.Local rows) :
    ∃ found, ownerParts finite base shapes dtype owner = .ok found := by
  obtain ⟨schema, saved, same⟩ := well.saved
  unfold ownerParts
  rw [saved]
  dsimp only
  rw [if_neg (by
    rintro (other | other | other | other)
    · exact other rfl
    · exact other same
    · exact other well.layouts
    · exact other well.records)]
  have each : ∀ table ∈ shapes.items, ∃ part,
      ownerPart finite base dtype owner.schema tables table.1 table.2.1 table.2.2 = .ok part := by
    rintro ⟨name, rows, width⟩ mem
    have shape := mem_items.mp mem
    obtain ⟨start, stop, indices, values, layout, record, -⟩ := well.typed name rows width shape
    have here : owner.part? name = some ⟨start, stop, indices, values⟩ := by
      unfold Owner.part?
      rw [layout, saved]
      dsimp only
      rw [record]
    exact ⟨_, (ownerPart_ok well shape).mpr ⟨here, locals name rows width shape _ here⟩⟩
  generalize shapes.items = list at each
  induction list with
  | nil => exact ⟨[], rfl⟩
  | cons table rest known =>
    obtain ⟨⟨part, accepted⟩, others⟩ := forall_mem_cons.mp each
    obtain ⟨found, read⟩ := known others
    exact ⟨(table.1, part) :: found, by unfold ownerTables; rw [accepted, read]⟩

theorem allParts_ok :
    allParts finite base shapes dtype owners = .ok found ↔
      List.Forall₂ (fun owner parts => ownerParts finite base shapes dtype owner = .ok parts)
        owners found := by
  induction owners generalizing found with
  | nil =>
    rw [forall₂_nil_left_iff]
    unfold allParts
    exact ⟨fun same => (by cases same; rfl), fun same => by rw [same]⟩
  | cons owner rest known =>
    rw [forall₂_cons_left_iff]
    unfold allParts
    split
    case h_1 error refused =>
      refine ⟨nofun, ?_⟩
      rintro ⟨parts, others, accepted, -⟩
      rw [refused] at accepted
      cases accepted
    case h_2 parts accepted =>
      split
      case h_1 error refused =>
        refine ⟨nofun, ?_⟩
        rintro ⟨parts', others, -, later, -⟩
        rw [known.mpr later] at refused
        cases refused
      case h_2 others later =>
        constructor
        · intro same
          cases same
          exact ⟨parts, others, accepted, known.mp later, rfl⟩
        · rintro ⟨parts', others', accepted', later', rfl⟩
          rw [accepted] at accepted'
          cases accepted'
          rw [known.mpr later'] at later
          cases later
          rfl

theorem partsOf_eq
    (reads : List.Forall₂ (fun (owner : Owner Row) parts => parts.lookup name = owner.part? name)
      owners found) : partsOf found name = parts owners name := by
  unfold partsOf parts
  induction reads with
  | nil => rfl
  | cons first _ known => rw [filterMap_cons, filterMap_cons, first, known]

/-! ### Joined parts -/

variable {list : List (Part Row)} {stop : ℤ}

theorem checkOwners_ok (ordered : ∀ part ∈ list, part.start ≤ part.stop) :
    checkOwners rows stop list = .ok () ↔ Span.Consecutive stop rows (list.map Part.span) := by
  induction list generalizing stop with
  | nil =>
    unfold checkOwners
    split_ifs with differs
    · exact ⟨nofun, fun same => absurd same differs⟩
    · exact ⟨fun _ => not_not.mp differs, fun _ => rfl⟩
  | cons part rest known =>
    obtain ⟨here, later⟩ := forall_mem_cons.mp ordered
    unfold checkOwners
    split_ifs with differs
    · exact ⟨nofun, fun same => absurd same.1 differs⟩
    · rw [known later]
      exact ⟨fun consecutive => ⟨not_not.mp differs, here, consecutive⟩, fun all => all.2.2⟩

theorem sortParts_perm (list : List (Part Row)) : (sortParts list).Perm list :=
  perm_insertionSort _ list

theorem sortParts_sorted (list : List (Part Row)) :
    ((sortParts list).map Part.span).Pairwise before := by
  rw [pairwise_map]
  exact pairwise_insertionSort _ list

theorem checkOwners_iff (inside : ∀ part ∈ list, part.Local rows) :
    checkOwners rows 0 (sortParts list) = .ok () ↔
      Span.Tiles 0 rows (list.map Part.span) ∧ Span.Clear (list.map Part.span) := by
  have same := sortParts_perm list
  have spans := same.map Part.span
  rw [checkOwners_ok fun part mem => (inside part (same.mem_iff.mp mem)).span.2.1,
    consecutive_iff (Int.natCast_nonneg rows) (sortParts_sorted list)]
  · exact ⟨fun both => ⟨both.1.perm spans, both.2.perm spans⟩,
      fun both => ⟨both.1.perm spans.symm, both.2.perm spans.symm⟩⟩
  · intro span mem
    obtain ⟨part, there, rfl⟩ := mem_map.mp mem
    exact (inside part (same.mem_iff.mp there)).span

/-- Indices of consecutive parts increase. -/
theorem shifted_increasing (consecutive : Span.Consecutive stop rows (list.map Part.span))
    (inside : ∀ part ∈ list, part.Local rows) :
    ((list.map Part.shifted).flatMap (·.items)).Pairwise (· < ·) ∧
      ∀ id ∈ (list.map Part.shifted).flatMap (·.items), stop ≤ id ∧ id < rows := by
  induction list generalizing stop with
  | nil => exact ⟨List.Pairwise.nil, nofun⟩
  | cons part rest known =>
    obtain ⟨here, others⟩ := forall_mem_cons.mp inside
    obtain ⟨starts, ordered, later⟩ := consecutive
    obtain ⟨increasing, bounds⟩ := known later others
    have own : ∀ id ∈ part.shifted.items, stop ≤ id ∧ id < part.stop := by
      intro id mem
      obtain ⟨index, there, rfl⟩ := mem_map.mp mem
      have within := here.ids.within index there
      unfold Part.span at starts
      omega
    constructor
    · refine pairwise_append.mpr ⟨?_, increasing, fun first before second after => ?_⟩
      · exact pairwise_map.mpr (here.ids.increasing.imp fun below => by omega)
      · exact (own first before).2.trans_le (bounds second after).1
    · intro id mem
      have below := later.bounds.1
      unfold Part.span at ordered below starts
      rcases mem_append.mp mem with before | after
      · have := own id before
        omega
      · have := bounds id after
        unfold Part.span at this
        omega

theorem cat_items {Item : Type} {tensors : List (Tensor Item)} {joined : Tensor Item}
    (same : cat tensors = .ok joined) : joined.items = tensors.flatMap (·.items) := by
  unfold cat at same
  split at same
  · cases same
  · cases same
    rfl

theorem cat_ok {Item : Type} {tensors : List (Tensor Item)} (filled : tensors ≠ []) (dtype : DType)
    (rest : List ℕ) (alike : ∀ tensor ∈ tensors, tensor.cpu = true ∧ tensor.dtype = dtype ∧
      tensor.shape.tail = rest) :
    ∃ joined, cat tensors = .ok joined ∧ joined.cpu = true ∧ joined.dtype = dtype ∧
      joined.shape = joined.items.length :: rest := by
  cases tensors with
  | nil => exact absurd rfl filled
  | cons first others =>
    obtain ⟨-, same, tail⟩ := alike first mem_cons_self
    refine ⟨_, rfl, all_eq_true.mpr fun tensor mem => (alike tensor mem).1, same, ?_⟩
    dsimp only
    rw [tail]

/-- The parts of a table as the owners have them. -/
structure Part.Well (finite : Row → Bool) (rows width : ℕ) (dtype : DType) (part : Part Row) : Prop
    where
  typed : Typed finite width dtype part.indices part.values
  inside : part.Local rows

theorem Part.Well.lengths (well : part.Well finite rows width dtype) :
    part.values.items.length = part.indices.items.length :=
  part.values.sized _ _ well.typed.values_shape

/-- What the table of a result holds: the rows of all parts, under their global indices. -/
structure Joined (finite : Row → Bool) (rows width : ℕ) (dtype : DType) (list : List (Part Row))
    (record : Record Row) : Prop where
  fits : ∃ indices values, record = .rows indices values ∧ Fits finite rows width dtype indices values
  union : ∀ indices values, record = .rows indices values → ∀ id row,
    (id, row) ∈ indices.items.zip values.items ↔ ∃ part ∈ list,
      (id - part.start, row) ∈ part.indices.items.zip part.values.items

/-- The parts of a divided table are joined. -/
theorem joinTable_ok (filled : list ≠ []) (well : ∀ part ∈ list, part.Well finite rows width dtype)
    (accepted : checkOwners rows 0 (sortParts list) = .ok ()) :
    ∃ record, joinTable rows list = .ok record ∧ Joined finite rows width dtype list record := by
  have same := sortParts_perm list
  have well' : ∀ part ∈ sortParts list, part.Well finite rows width dtype :=
    fun part mem => well part (same.mem_iff.mp mem)
  have filled' : sortParts list ≠ [] := by
    intro empty
    rw [empty] at same
    exact filled same.symm.eq_nil
  have shifted_filled : (sortParts list).map Part.shifted ≠ [] := by simpa using filled'
  have values_filled : (sortParts list).map Part.values ≠ [] := by simpa using filled'
  obtain ⟨indices, joined, cpu, dtype_, shape⟩ := cat_ok shifted_filled .int64 [] (by
      intro tensor mem
      obtain ⟨part, there, rfl⟩ := mem_map.mp mem
      have typed := (well' part there).typed
      refine ⟨typed.indices_cpu, typed.indices_dtype, ?_⟩
      show part.indices.shape.tail = []
      rw [typed.indices_shape]
      rfl)
  obtain ⟨values, joined', cpu', dtype', shape'⟩ := cat_ok values_filled dtype [width] (by
      intro tensor mem
      obtain ⟨part, there, rfl⟩ := mem_map.mp mem
      have typed := (well' part there).typed
      refine ⟨typed.values_cpu, typed.values_dtype, ?_⟩
      rw [typed.values_shape]
      rfl)
  have items := cat_items joined
  have items' := cat_items joined'
  rw [flatMap_map] at items items'
  have lengths : ∀ part ∈ sortParts list, part.shifted.items.length = part.values.items.length := by
    intro part mem
    rw [(well' part mem).lengths]
    exact length_map _
  have zipped : indices.items.zip values.items = (sortParts list).flatMap fun part =>
      part.shifted.items.zip part.values.items := by
    rw [items, items']
    exact zip_flatMap lengths
  have total : values.items.length = indices.items.length := by
    rw [items, items', length_flatMap, length_flatMap]
    exact congrArg sum (map_congr_left fun part mem => (lengths part mem).symm)
  have consecutive := (checkOwners_ok fun part mem => (well' part mem).inside.span.2.1).mp accepted
  obtain ⟨increasing, bounds⟩ := shifted_increasing consecutive fun part mem =>
    (well' part mem).inside
  rw [flatMap_map, ← items] at increasing bounds
  refine ⟨.rows indices values, ?_, ⟨indices, values, rfl, ⟨cpu, dtype_, shape, cpu', dtype', ?_, ?_⟩,
    increasing, bounds⟩, ?_⟩
  · unfold joinTable
    rw [accepted]
    rw [joined, joined']
  · rw [shape', total]
  · intro row mem
    rw [items'] at mem
    obtain ⟨part, there, inside⟩ := mem_flatMap.mp mem
    exact (well' part there).typed.finite_values row inside
  · intro _ _ equal id row
    cases equal
    rw [zipped, mem_flatMap]
    have shifted : ∀ part : Part Row, (id, row) ∈ part.shifted.items.zip part.values.items ↔
        (id - part.start, row) ∈ part.indices.items.zip part.values.items := by
      intro part
      show (id, row) ∈ (part.indices.items.map (· + part.start)).zip part.values.items ↔ _
      rw [zip_map_left, mem_map]
      constructor
      · rintro ⟨⟨index, row'⟩, mem, equal⟩
        obtain ⟨rfl, rfl⟩ := Prod.mk.inj equal
        simpa using mem
      · intro mem
        exact ⟨_, mem, by simp⟩
    constructor
    · rintro ⟨part, there, inside⟩
      exact ⟨part, same.mem_iff.mp there, (shifted part).mp inside⟩
    · rintro ⟨part, there, inside⟩
      exact ⟨part, same.mem_iff.mpr there, (shifted part).mpr inside⟩

/-! ### The whole export -/

section Tables

variable {found : List (List (String × Part Row))} {tables out : OrderedTable String (Record Row)}
  {shapeList : List (String × ℕ × ℕ)}

theorem joinTables_some (each : ∀ table ∈ shapeList, ∃ record,
    joinTable table.2.1 (partsOf found table.1) = .ok record) :
    ∃ out, joinTables found tables shapeList = .ok out := by
  induction shapeList generalizing tables with
  | nil => exact ⟨tables, rfl⟩
  | cons table rest known =>
    obtain ⟨⟨record, joined⟩, others⟩ := forall_mem_cons.mp each
    have later : ∃ out, joinTables found (tables.push table.1 record) rest = .ok out := known others
    obtain ⟨out, later⟩ := later
    refine ⟨out, ?_⟩
    unfold joinTables
    rw [joined]
    exact later

/-- Each table of the result is joined of its parts. -/
theorem joinTables_ok (joined : joinTables found tables shapeList = .ok out)
    (distinct : (shapeList.map Prod.fst).Nodup)
    (fresh : ∀ table ∈ shapeList, tables.get? table.1 = none) :
    names out = names tables ++ shapeList.map Prod.fst ∧
      (∀ name, (∀ table ∈ shapeList, table.1 ≠ name) → out.get? name = tables.get? name) ∧
      ∀ table ∈ shapeList, ∃ record, joinTable table.2.1 (partsOf found table.1) = .ok record ∧
        out.get? table.1 = some record := by
  induction shapeList generalizing tables with
  | nil =>
    cases joined
    exact ⟨(append_nil _).symm, fun _ _ => rfl, nofun⟩
  | cons table rest known =>
    obtain ⟨unused, others⟩ := nodup_cons.mp distinct
    obtain ⟨absent, free⟩ := forall_mem_cons.mp fresh
    have other : ∀ table' ∈ rest, table'.1 ≠ table.1 := by
      rintro table' mem same
      exact unused (mem_map.mpr ⟨table', mem, same⟩)
    unfold joinTables at joined
    split at joined
    case h_1 => cases joined
    case h_2 record here =>
      have free' : ∀ table' ∈ rest, (tables.push table.1 record).get? table'.1 = none := by
        intro table' mem
        rw [get?_push_ne (other table' mem)]
        exact free table' mem
      obtain ⟨keys, kept, each⟩ := known joined others free'
      refine ⟨?_, fun name differs => ?_, forall_mem_cons.mpr ⟨⟨record, here, ?_⟩, each⟩⟩
      · rw [keys, names, keys_push absent, map_cons, append_assoc, singleton_append]
        rfl
      · obtain ⟨first, later⟩ := forall_mem_cons.mp differs
        rw [kept name later, get?_push_ne first.symm]
      · rw [kept table.1 other, get?_push_self]

end Tables

section

variable (well : WellFormed finite shapes dtype owner tables)
  (shape : shapes.get? name = some (rows, width))
include well shape

theorem WellFormed.typed_part (here : owner.part? name = some part) :
    Typed finite width dtype part.indices part.values := by
  obtain ⟨start, stop, indices, values, layout, record, typed⟩ := well.typed name rows width shape
  obtain ⟨schema, saved, -⟩ := well.saved
  unfold Owner.part? at here
  rw [layout, saved] at here
  dsimp only at here
  rw [record] at here
  cases here
  exact typed

theorem WellFormed.part_some : ∃ part, owner.part? name = some part := by
  obtain ⟨start, stop, indices, values, layout, record, -⟩ := well.typed name rows width shape
  obtain ⟨schema, saved, -⟩ := well.saved
  refine ⟨⟨start, stop, indices, values⟩, ?_⟩
  unfold Owner.part?
  rw [layout, saved]
  dsimp only
  rw [record]

end

def WellFormedAll (finite : Row → Bool) (shapes : Shapes) (dtype : DType)
    (owners : List (Owner Row)) : Prop :=
  ∀ owner ∈ owners, ∃ tables, WellFormed finite shapes dtype owner tables

theorem allParts_of_divided (well : WellFormedAll finite shapes dtype owners)
    (locals : ∀ name rows width, shapes.get? name = some (rows, width) →
      ∀ part ∈ parts owners name, part.Local rows) :
    ∃ found, allParts finite base shapes dtype owners = .ok found := by
  have each : ∀ owner ∈ owners, ∃ found, ownerParts finite base shapes dtype owner = .ok found := by
    intro owner mem
    obtain ⟨tables, fine⟩ := well owner mem
    exact ownerParts_some fine fun name rows width shape part here =>
      locals name rows width shape part (mem_filterMap.mpr ⟨owner, mem, here⟩)
  clear locals well
  induction owners with
  | nil => exact ⟨[], rfl⟩
  | cons owner rest known =>
    obtain ⟨⟨found, read⟩, others⟩ := forall_mem_cons.mp each
    obtain ⟨founds, reads⟩ := known others
    exact ⟨found :: founds, by unfold allParts; rw [read, reads]⟩

/-- What is read of the owners: the parts of each table, all of them local. -/
theorem allParts_locals (well : WellFormedAll finite shapes dtype owners)
    (read : allParts finite base shapes dtype owners = .ok found)
    (shape : shapes.get? name = some (rows, width)) :
    partsOf found name = parts owners name ∧
      ∀ part ∈ parts owners name, part.Well finite rows width dtype := by
  have reads := allParts_ok.mp read
  have each : ∀ owner ∈ owners, ∃ tables, WellFormed finite shapes dtype owner tables := well
  have both : List.Forall₂ (fun owner parts => parts.lookup name = owner.part? name ∧
      ∃ part, owner.part? name = some part ∧ part.Well finite rows width dtype) owners found := by
    clear read well
    induction reads with
    | nil => exact nil
    | cons first _ known =>
      obtain ⟨⟨tables, fine⟩, others⟩ := forall_mem_cons.mp each
      obtain ⟨part, there, here, local_⟩ := ownerParts_ok fine first name rows width shape
      exact cons
        ⟨there.trans here.symm, part, here, fine.typed_part shape here, local_⟩ (known others)
  refine ⟨partsOf_eq (both.imp fun _ _ fine => fine.1), fun part mem => ?_⟩
  obtain ⟨owner, inside, here⟩ := mem_filterMap.mp mem
  clear read reads each
  induction both with
  | nil => cases inside
  | cons first _ known =>
    rcases mem_cons.mp inside with rfl | inside
    · obtain ⟨-, part', here', fine⟩ := first
      rw [here] at here'
      cases here'
      exact fine
    · exact known (fun owner member' => well owner (mem_cons_of_mem _ member'))
        (mem_filterMap.mpr ⟨owner, inside, here⟩) inside

section

variable (some_ : owners ≠ []) (well : WellFormedAll finite shapes dtype owners)
include some_ well

section

variable (shape : shapes.get? name = some (rows, width))
include shape

theorem parts_ne_nil : parts owners name ≠ [] := by
  obtain ⟨owner, rest, rfl⟩ := exists_cons_of_ne_nil some_
  obtain ⟨tables, fine⟩ := well owner mem_cons_self
  obtain ⟨part, here⟩ := fine.part_some shape
  unfold parts
  rw [filterMap_cons, here]
  exact cons_ne_nil _ _

section

variable (fine : ∀ part ∈ parts owners name, part.Well finite rows width dtype)
include fine

theorem joinTable_divided :
    (∃ record, joinTable rows (parts owners name) = .ok record) ↔ Divided owners name rows := by
  have locals : ∀ part ∈ parts owners name, part.Local rows := fun part mem =>
    (fine part mem).inside
  constructor
  · rintro ⟨record, joined⟩
    unfold joinTable at joined
    split at joined
    case h_1 => cases joined
    case h_2 accepted =>
      obtain ⟨tiles, clear⟩ := (checkOwners_iff locals).mp accepted
      exact ⟨locals, tiles, clear⟩
  · intro divided
    obtain ⟨record, joined, -⟩ := joinTable_ok (parts_ne_nil some_ well shape) fine
      ((checkOwners_iff locals).mpr ⟨divided.tiles, divided.clear⟩)
    exact ⟨record, joined⟩

theorem joined_of_ok {record : Record Row} (joined : joinTable rows (parts owners name) = .ok record) :
    Joined finite rows width dtype (parts owners name) record := by
  have divided := (joinTable_divided some_ well shape fine).mp ⟨record, joined⟩
  obtain ⟨record', joined', fits⟩ := joinTable_ok (parts_ne_nil some_ well shape) fine
    ((checkOwners_iff divided.inside).mpr ⟨divided.tiles, divided.clear⟩)
  rw [joined] at joined'
  cases joined'
  exact fits

end

end

theorem joined_valid {found : List (List (String × Part Row))} {out : OrderedTable String (Record Row)}
    (read : allParts finite base shapes dtype owners = .ok found)
    (joined : joinTables found ∅ shapes.items = .ok out) :
    validateDelta finite (.delta ⟨1, base, out⟩) base shapes dtype = .ok () ∧
      ∀ name rows width, shapes.get? name = some (rows, width) → ∃ record,
        out.get? name = some record ∧ Joined finite rows width dtype (parts owners name) record ∧
          Divided owners name rows := by
  obtain ⟨keys, -, each⟩ := joinTables_ok joined shapes.distinct fun _ _ => rfl
  have all : ∀ name rows width, shapes.get? name = some (rows, width) → ∃ record,
      out.get? name = some record ∧ Joined finite rows width dtype (parts owners name) record ∧
        Divided owners name rows := by
    intro name rows width shape
    obtain ⟨record, here, there⟩ := each _ (mem_items.mpr shape)
    obtain ⟨same, fine⟩ := allParts_locals well read shape
    rw [same] at here
    exact ⟨record, there, joined_of_ok some_ well shape fine here,
      (joinTable_divided some_ well shape fine).mp ⟨record, here⟩⟩
  refine ⟨validateDelta_ok.mpr ⟨_, rfl, rfl, rfl, ?_, fun name rows width shape => ?_⟩, all⟩
  · rw [keys]
    exact refl _
  · obtain ⟨record, there, joined, -⟩ := all name rows width shape
    obtain ⟨indices, values, rfl, fits⟩ := joined.fits
    exact ⟨indices, values, there, fits⟩

end

/-! ### Samples -/

theorem rows_head (ids : List ℤ) : ∀ rows rest, [ids.length] = rows :: rest → ids.length = rows :=
  fun _ _ same => (cons.inj same).1

/-- An owner of rows of a table `1` with two rows. -/
def sampleOwner (start stop : ℤ) (ids : List ℤ) : Owner Unit where
  schema := (∅ : Schema).push "1" ⟨some start, some stop, [2, 1], [stop - start, 1], .float32⟩
  payload := .ok (.rows 1
    ((∅ : Schema).push "1" ⟨some start, some stop, [2, 1], [stop - start, 1], .float32⟩)
    ((∅ : OrderedTable String (Record Unit)).push "1" (.rows
      ⟨true, .int64, [ids.length], ids, rows_head ids⟩
      ⟨true, .float32, [ids.length, 1], replicate ids.length (), fun _ _ same =>
        length_replicate.trans (cons.inj same).1⟩)))

def sampleShapes : Shapes := (∅ : Shapes).push "1" (2, 1)

theorem sampleOwner_well (start stop : ℤ) (ids : List ℤ) :
    ∃ tables, WellFormed (fun _ => true) sampleShapes .float32 (sampleOwner start stop ids) tables := by
  refine ⟨_, ⟨_, rfl, refl _⟩, refl _, refl _, ?_⟩
  intro name rows width shape
  rcases push_cases shape with ⟨rfl, same⟩ | ⟨-, shape⟩
  · cases same
    exact ⟨start, stop, _, _, get?_push_self, get?_push_self,
      rfl, rfl, rfl, rfl, rfl, rfl, fun _ _ => rfl⟩
  · cases shape

theorem sampleOwners_well (bounds : List (ℤ × ℤ × List ℤ)) :
    WellFormedAll (fun _ => true) sampleShapes .float32
      (bounds.map fun owner => sampleOwner owner.1 owner.2.1 owner.2.2) := by
  intro owner mem
  obtain ⟨⟨start, stop, ids⟩, -, rfl⟩ := mem_map.mp mem
  exact sampleOwner_well start stop ids

/-- **The export of the owners' rows**: well-formed owners are accepted exactly when they divide every
table, and then the result holds exactly the rows of all owners, and is valid. -/
theorem global_rows (finite : Row → Bool) (base : Identity) (shapes : Shapes) (dtype : DType)
    (owners : List (Owner Row)) (some_ : owners ≠ [])
    (well : WellFormedAll finite shapes dtype owners) :
    ((∃ delta, globalRows finite owners base shapes dtype = .ok delta) ↔
      ∀ name rows width, shapes.get? name = some (rows, width) → Divided owners name rows) ∧
    ∀ delta, globalRows finite owners base shapes dtype = .ok delta →
      validateDelta finite (.delta delta) base shapes dtype = .ok () ∧
      ∀ name rows width, shapes.get? name = some (rows, width) → ∃ indices values,
        delta.tables.get? name = some (.rows indices values) ∧
        indices.items.Pairwise (· < ·) ∧ values.items.length = indices.items.length ∧
        ∀ id row, (id, row) ∈ indices.items.zip values.items ↔ ∃ part ∈ parts owners name,
          (id - part.start, row) ∈ part.indices.items.zip part.values.items := by
  have accepted : ∀ delta, globalRows finite owners base shapes dtype = .ok delta →
      ∃ found, allParts finite base shapes dtype owners = .ok found ∧
        delta.format = 1 ∧ delta.base = base ∧
        joinTables found ∅ shapes.items = .ok delta.tables := by
    intro delta same
    unfold globalRows at same
    split at same
    case h_1 => cases same
    case h_2 found read =>
      split at same
      case h_1 => cases same
      case h_2 out joined =>
        split at same
        case h_1 => cases same
        case h_2 =>
          cases same
          exact ⟨found, read, rfl, rfl, joined⟩
  refine ⟨⟨?_, fun divided => ?_⟩, fun delta same => ?_⟩
  · rintro ⟨delta, same⟩ name rows width shape
    obtain ⟨found, read, -, -, joined⟩ := accepted delta same
    obtain ⟨record, -, -, fine⟩ := (joined_valid some_ well read joined).2 name rows width shape
    exact fine
  · obtain ⟨found, read⟩ : ∃ found, allParts finite base shapes dtype owners = .ok found :=
      allParts_of_divided well fun name rows width shape => (divided name rows width shape).inside
    have each : ∀ table ∈ shapes.items, ∃ record,
        joinTable table.2.1 (partsOf found table.1) = .ok record := by
      rintro ⟨name, rows, width⟩ member
      have shape := mem_items.mp member
      obtain ⟨same, fine⟩ := allParts_locals well read shape
      rw [same]
      exact (joinTable_divided some_ well shape fine).mpr (divided name rows width shape)
    have joined : ∃ out, joinTables found ∅ shapes.items = .ok out := joinTables_some each
    obtain ⟨out, joined⟩ := joined
    refine ⟨⟨1, base, out⟩, ?_⟩
    unfold globalRows
    rw [read]
    dsimp only
    rw [joined]
    dsimp only
    rw [(joined_valid some_ well read joined).1]
  · obtain ⟨found, read, format, same_, joined⟩ := accepted delta same
    obtain ⟨valid, all⟩ := joined_valid some_ well read joined
    have whole : delta = ⟨1, base, delta.tables⟩ := by
      obtain ⟨format', base', tables⟩ := delta
      dsimp only at format same_
      rw [format, same_]
    refine ⟨by rw [whole]; exact valid, fun name rows width shape => ?_⟩
    obtain ⟨record, there, joined_, -⟩ := all name rows width shape
    obtain ⟨indices, values, rfl, fits⟩ := joined_.fits
    exact ⟨indices, values, there, fits.ids.increasing, values.sized _ _ fits.values_shape,
      joined_.union indices values rfl⟩

/-- Two owners of one row each are joined. -/
theorem two_owners_joined : ∃ delta, globalRows (fun _ => true)
    [sampleOwner 0 1 [0], sampleOwner 1 2 []] () sampleShapes .float32 = .ok delta ∧
      validateDelta (fun _ => true) (.delta delta) () sampleShapes .float32 = .ok () := by
  have well : WellFormedAll (fun _ => true) sampleShapes .float32
      [sampleOwner 0 1 [0], sampleOwner 1 2 []] :=
    sampleOwners_well [(0, 1, [0]), (1, 2, [])]
  have joined : ∃ delta, globalRows (fun _ => true)
      [sampleOwner 0 1 [0], sampleOwner 1 2 []] () sampleShapes .float32 = .ok delta := ⟨_, rfl⟩
  obtain ⟨delta, same⟩ := joined
  have exact_ := global_rows (fun _ => true) () sampleShapes .float32 _ (cons_ne_nil _ _) well
  exact ⟨delta, same, (exact_.2 delta same).1⟩

/-- An empty span within the span of another owner is refused, though every row has one owner. -/
theorem empty_owner_refused :
    WellFormedAll (fun _ => true) sampleShapes .float32 [sampleOwner 0 2 [0], sampleOwner 1 1 []] ∧
      (∀ part ∈ parts [sampleOwner 0 2 [0], sampleOwner 1 1 []] "1", part.Local 2) ∧
      Span.Tiles 0 2 ((parts [sampleOwner 0 2 [0], sampleOwner 1 1 []] "1").map Part.span) ∧
      globalRows (fun _ => true) [sampleOwner 0 2 [0], sampleOwner 1 1 []] () sampleShapes .float32
        = .error "SFT Engram owners overlap or leave missing rows" := by
  refine ⟨sampleOwners_well [(0, 2, [0]), (1, 1, [])], ?_, ?_, rfl⟩
  · refine forall_mem_cons.mpr ⟨⟨by decide, checkIndices_iff.mp rfl⟩, ?_⟩
    exact forall_mem_cons.mpr ⟨⟨by decide, checkIndices_iff.mp rfl⟩, nofun⟩
  · intro row
    show holders [((0 : ℤ), (2 : ℤ)), (1, 1)] row = _
    have empty : ¬ Span.Holds (1, 1) row := fun held => absurd (held.1.trans_lt held.2) (lt_irrefl _)
    rw [holders_cons, holders_cons, if_neg empty]
    exact Nat.zero_add _

end TinyDSV41.Engram
