/-
**The rows that a cache returns.**

* `CacheLayout`, `Kept` — the buffers of a cache, and those that stay as they were.
* `readRows_ok` — the rows of one read.
-/

import TinyDSV41.Engram.RowCache
import TinyDSV41.Lib.Checks

namespace TinyDSV41.Engram

open List Lib Triple Machine
open Option (map_eq_some_iff mem_toList some_ne_none)
open Prod (fst)

variable {Sig Row : Type}

/-! ### Rules -/

variable {edits : List (ℤ × Option Row)}
variable {length : ℕ}

section Rules

variable {calm : Prop} {before : Machine Sig Row → Prop} {failed : Machine Sig Row → Prop}

variable {Value Other : Type} {after : Other → Machine Sig Row → Prop} {cache : Cache Sig}
  {next : Value → Prog (Machine Sig Row) Other}

theorem compute_bind {value : Option Value} (raised : ∀ machine, before machine → failed machine)
    (defined : calm → ∃ found, value = some found)
    (later : ∀ found, value = some found → Triple calm before (next found) after failed) :
    Triple calm before (compute value >>= next) after failed := by
  have computed : Triple calm before (compute value)
      (fun found machine => value = some found ∧ before machine) failed := by
    refine operate fun machine known => ⟨raised machine known, fun quiet => ?_, fun found next same => ?_⟩
    · obtain ⟨found, there⟩ := defined quiet
      exact ⟨_, by rw [there]; rfl⟩
    · obtain ⟨result, there, pair⟩ := map_eq_some_iff.mp same
      cases pair
      exact ⟨there, known⟩
  exact computed.bind fun found => given (later found)

theorem field_bind {view : Cache Sig → Value} (fields : ∀ machine, before machine → machine.cache = cache)
    (later : Triple calm before (next (view cache)) after failed) :
    Triple calm before (field view >>= next) after failed := by
  have read : Triple calm before (field view) (fun found machine => found = view cache ∧ before machine) failed :=
    look fun machine known => ⟨congrArg view (fields machine known), known⟩
  refine read.bind fun found => given ?_
  rintro rfl
  exact later

section

variable (raised : ∀ machine, before machine → failed machine)
include raised

variable {view : Cache Sig → Option Value}

section

variable (fields : ∀ machine, before machine → machine.cache = cache)
include fields

theorem tensor_bind (defined : calm → view cache ≠ none)
    (later : ∀ found, view cache = some found → Triple calm before (next found) after failed) :
    Triple calm before (tensor view >>= next) after failed := by
  have read : Triple calm before (tensor view) (fun found machine => view cache = some found ∧ before machine)
      failed := by
    refine operate fun machine known => ⟨raised machine known, fun quiet => ?_, fun found next same => ?_⟩
    · obtain ⟨found, there⟩ := Option.ne_none_iff_exists'.mp (defined quiet)
      exact ⟨_, by rw [fields machine known, there]; rfl⟩
    · obtain ⟨result, there, pair⟩ := map_eq_some_iff.mp same
      cases pair
      exact ⟨(congrArg view (fields machine known)).symm.trans there, known⟩
  exact read.bind fun found => given (later found)

theorem known_bind {value : Value} (known : view cache = some value)
    (later : Triple calm before (next value) after failed) :
    Triple calm before (tensor view >>= next) after failed := by
  refine tensor_bind raised fields (fun _ none_ => some_ne_none value (known.symm.trans none_))
    fun found there => ?_
  obtain rfl : value = found := Option.mem_unique known there
  exact later

end

theorem select_rule {address : ℕ} {ids : List ℤ}
    (defined : calm → ∀ machine, before machine → Within ids (machine.heap address).length) :
    Triple calm before (select address ids)
      (fun rows machine => indexSelect (machine.heap address) ids = some rows ∧ before machine) failed := by
  refine operate fun machine known => ⟨raised machine known, fun quiet => ?_, fun found next same => ?_⟩
  · obtain ⟨rows, there⟩ := indexSelect_some (defined quiet machine known)
    exact ⟨_, by rw [there]; rfl⟩
  · obtain ⟨result, there, pair⟩ := map_eq_some_iff.mp same
    cases pair
    exact ⟨there, known⟩

theorem copyInto_rule {address : ℕ}
    (defined : calm → ∀ machine, before machine → Within (edits.map fst) (machine.heap address).length) :
    Triple calm before (copyInto address edits) (fun _ machine => ∃ earlier buffer, before earlier ∧
        indexCopy (earlier.heap address) edits = some buffer ∧ machine = earlier.write address buffer)
      failed := by
  refine operate fun machine known => ⟨raised machine known, fun quiet => ?_, fun found next same => ?_⟩
  · obtain ⟨buffer, there⟩ := indexCopy_some (defined quiet machine known)
    exact ⟨_, by rw [there]; rfl⟩
  · obtain ⟨buffer, there, pair⟩ := map_eq_some_iff.mp same
    cases pair
    exact ⟨machine, buffer, known, there, rfl⟩

theorem empty_rule : Triple calm before (empty length) (fun address machine => ∃ earlier, before earlier ∧
      address = earlier.next ∧ machine = earlier.allocate length) failed := by
  refine operate fun machine known => ⟨raised machine known, fun _ => ⟨_, rfl⟩, fun found next same => ?_⟩
  cases same
  exact ⟨machine, known, rfl, rfl⟩

end

section

variable {refused : Bool} (raised : refused = true → ∀ machine, before machine → failed machine)
  (memory : calm → refused = false)
include raised memory

theorem refuse_rule {error : String} :
    Triple calm before (.when (refused = true) (.fail error)) (fun _ => before) failed := by
  refine when (fun none_ => fail fun machine known => ⟨raised none_ machine known, fun quiet => ?_⟩) fun _ _ => id
  rw [memory quiet] at none_
  cases none_

theorem reserve_rule : Triple calm before (reserve refused length) (fun address machine =>
    ∃ earlier, before earlier ∧ address = earlier.next ∧ machine = earlier.allocate length) failed := by
  have named : Triple calm before (Prog.look Machine.next)
      (fun address machine => address = machine.next ∧ before machine) failed := look fun _ known => ⟨rfl, known⟩
  refine (refuse_rule raised memory).bind fun _ => named.bind fun address => pointwise fun start known => ?_
  have grown : Triple calm (fun machine => machine = start) (.change (·.allocate length))
      (fun _ machine => machine = start.allocate length) failed := change fun _ same => by rw [same]
  exact grown.bind fun _ => pure fun _ same => ⟨start, known.2, known.1, same⟩

end

end Rules

/-! ### Buffers -/

variable (rowBytes : Sig → ℕ) (budget : ℕ)

/-- The buffers of a cache and their sizes. -/
structure CacheLayout (machine : Machine Sig Row) : Prop where
  allocated : ∀ address ∈ machine.cache.owned, address < machine.next
  distinct : machine.cache.owned.Nodup
  tags : ∀ tags, machine.cache.tags = some tags → 1 ≤ tags.length ∧
    ∃ values, machine.cache.values = some values ∧ (machine.heap values).length = tags.length
  staged : ∀ address, machine.cache.pinned = some address ∨ machine.cache.staging = some address →
    ∃ signature, machine.cache.signature = some signature ∧
      (machine.heap address).length = stagingCapacity rowBytes budget signature

/-- Only the buffers of the cache and new ones were written. -/
structure Kept (start machine : Machine Sig Row) : Prop where
  next : start.next ≤ machine.next
  frame : ∀ address, address < start.next → address ∉ start.cache.owned →
    machine.heap address = start.heap address
  owned : ∀ address ∈ machine.cache.owned, address ∈ start.cache.owned ∨ start.next ≤ address

variable {rowBytes budget} {refused : Buffer → Bool} {start machine : Machine Sig Row} {address : ℕ}
  {buffer : List (Option Row)}

theorem Machine.heap_write : (machine.write address buffer).heap address = buffer :=
  Function.update_self ..

variable {other : ℕ}

theorem Machine.heap_write_ne (differs : other ≠ address) :
    (machine.write address buffer).heap other = machine.heap other :=
  Function.update_of_ne differs ..

theorem Machine.heap_allocate (before : other < machine.next) :
    (machine.allocate length).heap other = machine.heap other :=
  Function.update_of_ne (ne_of_lt before) ..

theorem Machine.heap_allocated : (machine.allocate length).heap machine.next = replicate length none :=
  Function.update_self ..

theorem length_write (length : buffer.length = (machine.heap address).length) :
    ((machine.write address buffer).heap other).length = (machine.heap other).length := by
  by_cases same : other = address
  · rw [same, heap_write, length]
  · rw [heap_write_ne same]

theorem CacheLayout.write (layout : CacheLayout rowBytes budget machine)
    (length : buffer.length = (machine.heap address).length) :
    CacheLayout rowBytes budget (machine.write address buffer) where
  allocated := layout.allocated
  distinct := layout.distinct
  tags tags found := by
    obtain ⟨positive, values, there, sized⟩ := layout.tags tags found
    exact ⟨positive, values, there, (length_write length).trans sized⟩
  staged other found := by
    obtain ⟨signature, there, sized⟩ := layout.staged other found
    exact ⟨signature, there, (length_write length).trans sized⟩

theorem Kept.write (kept : Kept start machine)
    (own : address ∈ machine.cache.owned ∨ start.next ≤ address) :
    Kept start (machine.write address buffer) where
  next := kept.next
  owned := kept.owned
  frame other before foreign := by
    have differs : other ≠ address := by
      rintro rfl
      rcases own with own | new
      · rcases kept.owned other own with own | new
        · exact foreign own
        · omega
      · omega
    rw [heap_write_ne differs]
    exact kept.frame other before foreign

theorem Kept.allocate (kept : Kept start machine) : Kept start (machine.allocate length) where
  next := kept.next.trans (Nat.le_succ _)
  owned := kept.owned
  frame other before foreign := by
    rw [heap_allocate (before.trans_le kept.next)]
    exact kept.frame other before foreign

theorem mem_owned {cache : Cache Sig} : address ∈ cache.owned ↔
    cache.values = some address ∨ cache.pinned = some address ∨ cache.staging = some address := by
  unfold Cache.owned
  simp only [mem_append, mem_toList]

theorem CacheLayout.allocate (layout : CacheLayout rowBytes budget machine) :
    CacheLayout rowBytes budget (machine.allocate length) where
  allocated other own := (layout.allocated other own).trans (Nat.lt_succ_self _)
  distinct := layout.distinct
  tags tags found := by
    obtain ⟨positive, values, there, sized⟩ := layout.tags tags found
    refine ⟨positive, values, there, ?_⟩
    rw [heap_allocate (layout.allocated values (mem_owned.mpr (Or.inl there)))]
    exact sized
  staged other found := by
    obtain ⟨signature, there, sized⟩ := layout.staged other found
    refine ⟨signature, there, ?_⟩
    rw [heap_allocate (layout.allocated other (mem_owned.mpr (Or.inr found)))]
    exact sized

theorem Kept.refl : Kept machine machine := ⟨le_rfl, fun _ _ _ => rfl, fun _ own => Or.inl own⟩

/-! ### Rows -/

/-- Every tag is that of the row in its slot. -/
def RowsExact (rows : List Row) (tags : List ℤ) (buffer : List (Option Row)) : Prop :=
  ∀ slot id, 0 ≤ id → rowAt tags slot = some id → ∃ row, rowAt rows id = some row ∧
    rowAt buffer slot = some (some row)

/-- A cell that holds the row with some index. -/
def IsRow (rows : List Row) (id : ℤ) (cell : Option Row) : Prop :=
  ∃ row, rowAt rows id = some row ∧ cell = some row

/-- A cell that holds the row requested at a position. -/
def Right (rows : List Row) (ids : List ℤ) (position : ℤ) (cell : Option Row) : Prop :=
  ∃ id, rowAt ids position = some id ∧ IsRow rows id cell

variable {rows : List Row} {ids tags : List ℤ}
variable {cells : List (Option Row)}

theorem RowsExact.copy {slots names : List ℤ} {tags' : List ℤ} {buffer' : List (Option Row)}
    (exact_ : RowsExact rows tags buffer) (length : slots.length = names.length)
    (good : List.Forall₂ (IsRow rows) names cells)
    (written : indexCopy buffer (slots.zip cells) = some buffer')
    (tagged : indexCopy tags (slots.zip names) = some tags') : RowsExact rows tags' buffer' := by
  induction good generalizing slots tags buffer with
  | nil =>
    rw [zip_nil_right] at written tagged
    cases written
    cases tagged
    exact exact_
  | cons first _ known =>
    obtain ⟨slot, rest, rfl⟩ := exists_cons_of_length_eq_add_one length
    obtain ⟨buffer₁, put, later⟩ := indexCopy_cons written
    obtain ⟨tags₁, tag, others⟩ := indexCopy_cons tagged
    refine known ?_ (Nat.succ.inj length) later others
    intro place id positive found
    rw [rowAt_putRow tag] at found
    rw [rowAt_putRow put]
    split_ifs at found with same
    · cases found
      obtain ⟨row, held, rfl⟩ := first
      exact ⟨row, held, by rw [if_pos same]⟩
    · rw [if_neg same]
      exact exact_ place id positive found

variable {chunk : List ℤ}

theorem taken_right {positions inverse : List ℤ} {taken : List (Option Row)}
    (all : List.Forall₂ (IsRow rows) chunk cells)
    (pairs : List.Forall₂ (fun position place => ∃ id, rowAt ids position = some id ∧ rowAt chunk place
      = some id) positions inverse) (selected : indexSelect cells inverse = some taken) :
    ∀ edit ∈ positions.zip taken, Right rows ids edit.1 edit.2 := by
  have reads := indexSelect_iff.mp selected
  clear selected
  induction pairs generalizing taken with
  | nil => exact nofun
  | cons first _ known =>
    cases reads with
    | cons there later =>
      refine forall_mem_cons.mpr ⟨?_, known later⟩
      obtain ⟨id, wanted, held⟩ := first
      exact ⟨id, wanted, forall₂_rowAt all held there⟩

theorem selected_rows (selected : indexSelect (rows.map some) chunk = some cells) :
    List.Forall₂ (IsRow rows) chunk cells := by
  refine (indexSelect_iff.mp selected).imp fun id cell found => ?_
  obtain ⟨index, rfl, there⟩ := rowAt_index found
  rw [getElem?_map, map_eq_some_iff] at there
  obtain ⟨row, held, rfl⟩ := there
  exact ⟨row, rowAt_some held, rfl⟩

/-! ### Plans -/

/-- What a plan decides about some missing rows. -/
structure PlanFits (count : ℕ) (chunk positions inverse : List ℤ) (plan : Plan) : Prop where
  positions : plan.positions = positions
  inverse : plan.inverse = inverse
  slots : Within plan.slots count
  length : plan.slots.length = plan.ids.length
  chosen : Within plan.chosen chunk.length
  ids : indexSelect chunk plan.chosen = some plan.ids

variable {count : ℕ}

/-- There is a plan: every slot gets a row. -/
theorem rowPlan_ok (chunk positions inverse : List ℤ) (positive : 1 ≤ count) :
    ∃ plan, rowPlan count positions chunk inverse = some plan ∧
      PlanFits count chunk positions inverse plan := by
  have length : (inverseOf (chunk.map (· % (count : ℤ)))).length = chunk.length := by
    unfold inverseOf
    rw [length_map, length_map]
  have keys : ((inverseOf (chunk.map (· % (count : ℤ)))).zip (arange chunk.length)).map fst
      = inverseOf (chunk.map (· % (count : ℤ))) := keys_zip (arange_length.trans length.symm)
  obtain ⟨chosen, ran, sized, each⟩ := scatterMax_ok
    (replicate (unique (chunk.map (· % (count : ℤ)))).length (-1))
    ((inverseOf (chunk.map (· % (count : ℤ)))).zip (arange chunk.length)) chunk.length
    (by
      rw [keys, length_replicate]
      exact fun index => mem_inverseOf.mp)
    (fun edit mem => mem_arange.mp (of_mem_zip mem).2)
    (fun index value found => by
      rw [eq_of_mem_replicate (rowAt_mem found)]
      omega)
  have within : Within chosen chunk.length := by
    intro value mem
    obtain ⟨index, found⟩ := exists_rowAt mem
    obtain ⟨below, -, filled⟩ := each index value found
    refine ⟨filled ?_, below⟩
    rw [keys, mem_inverseOf]
    have inside := rowAt_within found
    rw [sized, length_replicate] at inside
    exact inside
  obtain ⟨ids, selected⟩ := indexSelect_some within
  refine ⟨_, by unfold rowPlan; dsimp only; rw [ran]; dsimp only; rw [selected], rfl, rfl, ?_, ?_,
    within, selected⟩
  · intro slot mem
    obtain ⟨id, -, rfl⟩ := mem_map.mp (mem_unique.mp mem)
    exact ⟨Int.emod_nonneg _ (by omega), Int.emod_lt_of_pos _ (by omega)⟩
  · rw [indexSelect_length selected, sized, length_replicate]

/-! ### One read -/

section Read

variable {weight : Weight Sig Row} {output : ℕ} {calm : Prop} {cache : Cache Sig} {filled : ℤ → Prop}

/-- What holds while rows are read, also at a failure. -/
structure Broken (rowBytes : Sig → ℕ) (budget : ℕ) (start machine : Machine Sig Row) : Prop where
  layout : CacheLayout rowBytes budget machine
  kept : Kept start machine
  table : machine.cache.weight = start.cache.weight
  stamp : machine.cache.version = start.cache.version

/-- What holds while rows are read: some positions of the output are filled. -/
structure Base (rowBytes : Sig → ℕ) (budget : ℕ) (start : Machine Sig Row) (weight : Weight Sig Row)
    (ids : List ℤ) (output : ℕ) (filled : ℤ → Prop) (machine : Machine Sig Row) : Prop
    extends Broken rowBytes budget start machine where
  signature : machine.cache.signature = some weight.signature
  fresh : start.next ≤ output
  known : output < machine.next
  foreign : output ∉ machine.cache.owned
  length : (machine.heap output).length = ids.length
  done : ∀ position, filled position → ∃ cell, rowAt (machine.heap output) position = some cell ∧
    Right weight.rows ids position cell

def Exact (weight : Weight Sig Row) (cache : Cache Sig) (machine : Machine Sig Row) : Prop :=
  ∀ tags values, cache.tags = some tags → cache.values = some values →
    RowsExact weight.rows tags (machine.heap values)

/-- What holds between two operations on the cache: its fields, its tags and the output. -/
structure At (rowBytes : Sig → ℕ) (budget : ℕ) (start : Machine Sig Row) (weight : Weight Sig Row)
    (ids : List ℤ) (output : ℕ) (cache : Cache Sig) (filled : ℤ → Prop) (machine : Machine Sig Row) : Prop
    extends Base rowBytes budget start weight ids output filled machine where
  fields : machine.cache = cache
  exact_ : Exact weight cache machine

section

variable (base : Base rowBytes budget start weight ids output filled machine)
include base

theorem Base.writeOwned (own : address ∈ machine.cache.owned)
    (length : buffer.length = (machine.heap address).length) :
    Base rowBytes budget start weight ids output filled (machine.write address buffer) := by
  have differs : output ≠ address := fun same => base.foreign (by rw [same]; exact own)
  refine ⟨⟨base.layout.write length, base.kept.write (Or.inl own), base.table, base.stamp⟩,
    base.signature, base.fresh, base.known, base.foreign, (length_write length).trans base.length, ?_⟩
  rw [heap_write_ne differs]
  exact base.done

theorem Base.writeOutput (right : ∀ edit ∈ edits, Right weight.rows ids edit.1 edit.2)
    (copied : indexCopy (machine.heap output) edits = some buffer) :
    Base rowBytes budget start weight ids output
      (fun position => filled position ∨ position ∈ edits.map fst) (machine.write output buffer) := by
  have length := indexCopy_length copied
  refine ⟨⟨base.layout.write length, base.kept.write (Or.inr base.fresh), base.table, base.stamp⟩,
    base.signature, base.fresh, base.known, base.foreign, (length_write length).trans base.length, ?_⟩
  rw [heap_write]
  intro position some_
  obtain ⟨written, kept⟩ := indexCopy_each right copied position
  by_cases now : position ∈ edits.map fst
  · exact written now
  · rw [kept now]
    exact base.done position (some_.resolve_right now)

end

section

variable (at_ : At rowBytes budget start weight ids output cache filled machine)
include at_

theorem At.writeOutput (right : ∀ edit ∈ edits, Right weight.rows ids edit.1 edit.2)
    (copied : indexCopy (machine.heap output) edits = some buffer) :
    At rowBytes budget start weight ids output cache
      (fun position => filled position ∨ position ∈ edits.map fst) (machine.write output buffer) := by
  refine ⟨at_.toBase.writeOutput right copied, at_.fields, fun tags values found there => ?_⟩
  have differs : values ≠ output := by
    rintro rfl
    refine at_.foreign (mem_owned.mpr (Or.inl ?_))
    rw [at_.fields]
    exact there
  rw [heap_write_ne differs]
  exact at_.exact_ tags values found there

theorem At.writeStaging (staged : cache.pinned = some address ∨ cache.staging = some address)
    (length : buffer.length = (machine.heap address).length) :
    At rowBytes budget start weight ids output cache filled (machine.write address buffer) := by
  have own : address ∈ machine.cache.owned := by
    rw [at_.fields]
    exact mem_owned.mpr (Or.inr staged)
  refine ⟨at_.toBase.writeOwned own length, at_.fields, fun tags values found there => ?_⟩
  have differs : values ≠ address := by
    rintro rfl
    have distinct := at_.layout.distinct
    rw [at_.fields] at distinct
    refine (nodup_append.mp distinct).2.2 values ?_ values ?_ rfl
    · rw [there]
      exact mem_singleton_self values
    · rw [mem_append, mem_toList, mem_toList]
      exact staged
  rw [heap_write_ne differs]
  exact at_.exact_ tags values found there

end

variable {values : ℕ}

theorem At.writeSlots (at_ : At rowBytes budget start weight ids output cache filled machine)
    (found : cache.values = some values) (tagged : cache.tags = some tags)
    (copied : indexCopy (machine.heap values) edits = some buffer) :
    Base rowBytes budget start weight ids output filled (machine.write values buffer) ∧
      (machine.write values buffer).cache = cache ∧
      ∃ before, RowsExact weight.rows tags before ∧
        indexCopy before edits = some ((machine.write values buffer).heap values) := by
  have own : values ∈ machine.cache.owned := by
    rw [at_.fields]
    exact mem_owned.mpr (Or.inl found)
  refine ⟨at_.toBase.writeOwned own (indexCopy_length copied), at_.fields, machine.heap values,
    at_.exact_ tags values tagged found, ?_⟩
  rw [heap_write]
  exact copied

theorem Base.tag {tags' : List ℤ} (base : Base rowBytes budget start weight ids output filled machine)
    (fields : machine.cache = cache) (found : cache.values = some values)
    (tagged : cache.tags = some tags) (length : tags'.length = tags.length)
    (exact_ : RowsExact weight.rows tags' (machine.heap values)) :
    At rowBytes budget start weight ids output { cache with tags := some tags' } filled
      (machine.put fun cache => { cache with tags := some tags' }) := by
  subst fields
  refine ⟨⟨⟨⟨base.layout.allocated, base.layout.distinct, ?_, base.layout.staged⟩,
    ⟨base.kept.next, base.kept.frame, base.kept.owned⟩, base.table, base.stamp⟩, base.signature,
    base.fresh, base.known, base.foreign, base.length, base.done⟩, rfl, ?_⟩
  · intro _ same
    cases same
    obtain ⟨positive, values', there, sized⟩ := base.layout.tags tags tagged
    exact ⟨by rw [length]; exact positive, values', there, by rw [length]; exact sized⟩
  · intro _ values' same there
    cases same
    obtain rfl : values = values' := Option.mem_unique found there
    exact exact_

variable (side : Machine Sig Row → Prop)

theorem fillBeside_rule
    (stable : ∀ machine buffer, side machine → side (machine.write output buffer))
    (right : ∀ edit ∈ edits, Right weight.rows ids edit.1 edit.2) :
    Triple calm (fun machine => At rowBytes budget start weight ids output cache filled machine ∧ side machine)
      (copyInto output edits)
      (fun _ machine => At rowBytes budget start weight ids output cache
        (fun position => filled position ∨ position ∈ edits.map fst) machine ∧ side machine)
      (Broken rowBytes budget start) := by
  refine (copyInto_rule (fun _ known => known.1.toBroken) fun _ machine known => ?_).imp ?_
  · rw [known.1.length]
    intro position mem
    obtain ⟨edit, there, rfl⟩ := mem_map.mp mem
    obtain ⟨id, found, -⟩ := right edit there
    exact rowAt_within found
  · rintro _ _ ⟨earlier, buffer, ⟨at_, aside⟩, copied, rfl⟩
    exact ⟨at_.writeOutput right copied, stable earlier buffer aside⟩

theorem fill_rule (right : ∀ edit ∈ edits, Right weight.rows ids edit.1 edit.2) :
    Triple calm (At rowBytes budget start weight ids output cache filled) (copyInto output edits)
      (fun _ => At rowBytes budget start weight ids output cache
        (fun position => filled position ∨ position ∈ edits.map fst)) (Broken rowBytes budget start) :=
  (fillBeside_rule (fun _ => True) (fun _ _ same => same) right).weaken (fun _ at_ => ⟨at_, trivial⟩)
    (fun _ _ known => known.1) fun _ raised => raised

theorem At.slots (at_ : At rowBytes budget start weight ids output cache filled machine)
    (tagged : cache.tags = some tags) (found : cache.values = some values) :
    (machine.heap values).length = tags.length := by
  have layout := at_.layout.tags tags
  rw [at_.fields] at layout
  obtain ⟨-, values', there, sized⟩ := layout tagged
  obtain rfl : values = values' := Option.mem_unique found there
  exact sized

/-- Missing rows are written to the output and to their slots. -/
theorem installRows_ok {plan : Plan} {positions inverse : List ℤ} (found : cache.values = some values)
    (tagged : cache.tags = some tags) (fits : PlanFits tags.length chunk positions inverse plan)
    (all : List.Forall₂ (IsRow weight.rows) chunk cells)
    (pairs : List.Forall₂ (fun position place => ∃ id, rowAt ids position = some id ∧ rowAt chunk place
      = some id) positions inverse) :
    Triple calm (At rowBytes budget start weight ids output cache filled) (installRows output plan cells)
      (fun _ machine => ∃ tags', tags'.length = tags.length ∧
        At rowBytes budget start weight ids output { cache with tags := some tags' }
          (fun position => filled position ∨ position ∈ positions) machine)
      (Broken rowBytes budget start) := by
  have broken : ∀ {filled : ℤ → Prop} (machine : Machine Sig Row),
      At rowBytes budget start weight ids output cache filled machine →
        Broken rowBytes budget start machine := fun _ at_ => at_.toBroken
  have places : Within inverse cells.length := by
    intro place mem
    obtain ⟨position, -, id, -, held⟩ := forall₂_right pairs mem
    rw [← all.length_eq]
    exact rowAt_within held
  have within : Within plan.chosen cells.length := by
    rw [← all.length_eq]
    exact fits.chosen
  unfold installRows
  rw [fits.inverse, fits.positions]
  refine compute_bind broken (fun _ => indexSelect_some places) fun taken taken_ => ?_
  have keys : (positions.zip taken).map fst = positions :=
    keys_zip ((indexSelect_length taken_).trans pairs.length_eq.symm)
  have filled_ : Triple calm (At rowBytes budget start weight ids output cache filled)
      (copyInto output (positions.zip taken)) (fun _ => At rowBytes budget start weight ids output cache
        (fun position => filled position ∨ position ∈ positions)) (Broken rowBytes budget start) := by
    refine (fill_rule (taken_right all pairs taken_)).imp fun _ _ known => ?_
    rw [keys] at known
    exact known
  refine filled_.bind fun _ => ?_
  refine compute_bind broken (fun _ => indexSelect_some within) fun chosen chosen_ => ?_
  have rows := forall₂_indexSelect all fits.ids chosen_
  have length : chosen.length = plan.slots.length := by rw [← rows.length_eq, fits.length]
  -- The slots are written before their tags.
  refine known_bind broken (fun _ at_ => at_.fields) found ?_
  have written : Triple calm (At rowBytes budget start weight ids output cache
      (fun position => filled position ∨ position ∈ positions)) (copyInto values (plan.slots.zip chosen))
      (fun _ machine => (∃ before, RowsExact weight.rows tags before ∧
          indexCopy before (plan.slots.zip chosen) = some (machine.heap values)) ∧
        machine.cache = cache ∧ Base rowBytes budget start weight ids output
          (fun position => filled position ∨ position ∈ positions) machine)
      (Broken rowBytes budget start) := by
    refine (copyInto_rule broken fun _ machine at_ => ?_).imp ?_
    · rw [keys_zip length, at_.slots tagged found]
      exact fits.slots
    · rintro _ _ ⟨earlier, buffer, at_, copied, rfl⟩
      obtain ⟨base, fields, slots⟩ := at_.writeSlots found tagged copied
      exact ⟨slots, fields, base⟩
  refine written.bind fun _ => ?_
  refine known_bind (fun _ known => known.2.2.toBroken) (fun _ known => known.2.1) tagged ?_
  have names : Within ((plan.slots.zip plan.ids).map fst) tags.length := by
    rw [keys_zip fits.length.symm]
    exact fits.slots
  refine compute_bind (fun _ known => known.2.2.toBroken) (fun _ => indexCopy_some names) fun tags' copied => ?_
  refine change fun machine known => ?_
  obtain ⟨⟨before, exact_, slots⟩, fields, base⟩ := known
  exact ⟨tags', indexCopy_length copied, base.tag fields found tagged (indexCopy_length copied)
    (exact_.copy fits.length rows slots copied)⟩

/-- The rows that were found are written to the output. -/
theorem readHits_ok {slots hits : List ℤ}
    (stable : ∀ machine buffer, side machine → side (machine.write output buffer))
    (found : cache.values = some values) (tagged : cache.tags = some tags)
    (each : ∀ position ∈ hits, ∃ id slot, rowAt ids position = some id ∧ 0 ≤ id ∧ rowAt slots position =
      some slot ∧ rowAt tags slot = some id) :
    Triple calm (fun machine => At rowBytes budget start weight ids output cache filled machine ∧ side machine)
      (readHits output slots hits)
      (fun _ machine => At rowBytes budget start weight ids output cache
        (fun position => filled position ∨ position ∈ hits) machine ∧ side machine)
      (Broken rowBytes budget start) := by
  have broken : ∀ (machine : Machine Sig Row),
      At rowBytes budget start weight ids output cache filled machine ∧ side machine →
        Broken rowBytes budget start machine := fun _ known => known.1.toBroken
  have within : Within hits slots.length := by
    intro position mem
    obtain ⟨id, slot, -, -, there, -⟩ := each position mem
    exact rowAt_within there
  refine known_bind broken (fun _ known => known.1.fields) found ?_
  refine compute_bind broken (fun _ => indexSelect_some within) fun places selected => ?_
  have reads := indexSelect_iff.mp selected
  have inside : Within places tags.length := by
    intro place mem
    obtain ⟨position, wanted, there⟩ := forall₂_right reads mem
    obtain ⟨id, slot, -, -, there', held⟩ := each position wanted
    rw [there] at there'
    cases there'
    exact rowAt_within held
  have selected_ : Triple calm
      (fun machine => At rowBytes budget start weight ids output cache filled machine ∧ side machine)
      (select values places) (fun rows machine => (rows.length = hits.length ∧
        ∀ edit ∈ hits.zip rows, Right weight.rows ids edit.1 edit.2) ∧
          At rowBytes budget start weight ids output cache filled machine ∧ side machine)
      (Broken rowBytes budget start) := by
    refine (select_rule broken fun _ machine known => ?_).imp ?_
    · rw [known.1.slots tagged found]
      exact inside
    · rintro rows machine ⟨read, at_, aside⟩
      have all := forall₂_comp reads (indexSelect_iff.mp read)
      refine ⟨⟨all.length_eq.symm, fun edit mem => ?_⟩, at_, aside⟩
      obtain ⟨place, there, cell⟩ := (forall₂_iff_zip.mp all).2 mem
      obtain ⟨id, slot, wanted, positive, there', held⟩ := each edit.1 (of_mem_zip mem).1
      rw [there] at there'
      cases there'
      obtain ⟨row, exact_, stored⟩ := at_.exact_ tags values tagged found place id positive held
      rw [cell] at stored
      exact ⟨id, wanted, row, exact_, Option.some.inj stored⟩
  refine selected_.bind fun rows => given fun known => ?_
  refine (fillBeside_rule side stable known.2).imp fun _ _ filled_ => ?_
  rw [keys_zip known.1] at filled_
  exact filled_

/-! ### Staging -/

theorem At.allocate (at_ : At rowBytes budget start weight ids output cache filled machine) :
    At rowBytes budget start weight ids output cache filled (machine.allocate length) := by
  refine ⟨⟨⟨at_.layout.allocate, at_.kept.allocate, at_.table, at_.stamp⟩, at_.signature, at_.fresh,
    at_.known.trans (Nat.lt_succ_self _), at_.foreign, ?_, ?_⟩, at_.fields, fun tags values found there => ?_⟩
  · rw [heap_allocate at_.known]
    exact at_.length
  · rw [heap_allocate at_.known]
    exact at_.done
  · have before : values < machine.next := by
      refine at_.layout.allocated values (mem_owned.mpr (Or.inl ?_))
      rw [at_.fields]
      exact there
    rw [heap_allocate before]
    exact at_.exact_ tags values found there

/-- Two caches that differ in their staging buffers and their ticket only. -/
structure SameRows (cache cache' : Cache Sig) : Prop where
  values : cache'.values = cache.values
  tags : cache'.tags = cache.tags
  signature : cache'.signature = cache.signature
  weight : cache'.weight = cache.weight
  version : cache'.version = cache.version
  generation : cache'.generation = cache.generation

/-- The cache takes other staging buffers. -/
theorem At.adopt {cache' : Cache Sig} (at_ : At rowBytes budget start weight ids output cache filled machine)
    (same : SameRows cache cache') (distinct : cache'.owned.Nodup)
    (buffers : ∀ address, cache'.pinned = some address ∨ cache'.staging = some address →
      (cache.pinned = some address ∨ cache.staging = some address) ∨
        start.next ≤ address ∧ address < machine.next ∧ address ≠ output ∧
          (machine.heap address).length = stagingCapacity rowBytes budget weight.signature) :
    At rowBytes budget start weight ids output cache' filled (machine.put fun _ => cache') := by
  have fields := at_.fields
  subst fields
  have owned : ∀ address ∈ cache'.owned, address ∈ machine.cache.owned ∨
      start.next ≤ address ∧ address < machine.next ∧ address ≠ output := by
    intro address own
    rcases mem_owned.mp own with found | staged
    · rw [same.values] at found
      exact Or.inl (mem_owned.mpr (Or.inl found))
    · rcases buffers address staged with before | ⟨fresh, known, differs, -⟩
      · exact Or.inl (mem_owned.mpr (Or.inr before))
      · exact Or.inr ⟨fresh, known, differs⟩
  refine ⟨⟨⟨⟨fun address own => ?_, distinct, fun tags found => ?_, fun address staged => ?_⟩,
    ⟨at_.kept.next, at_.kept.frame, fun address own => ?_⟩, same.weight.trans at_.table,
    same.version.trans at_.stamp⟩, same.signature.trans at_.signature, at_.fresh, at_.known, fun own => ?_,
    at_.length, at_.done⟩, rfl, fun tags values found there => ?_⟩
  · rcases owned address own with before | ⟨-, known, -⟩
    · exact at_.layout.allocated address before
    · exact known
  · obtain ⟨positive, values, there, sized⟩ := at_.layout.tags tags (same.tags.symm.trans found)
    exact ⟨positive, values, same.values.trans there, sized⟩
  · rcases buffers address staged with before | ⟨-, -, -, sized⟩
    · obtain ⟨signature, there, sized⟩ := at_.layout.staged address before
      exact ⟨signature, same.signature.trans there, sized⟩
    · exact ⟨weight.signature, same.signature.trans at_.signature, sized⟩
  · rcases owned address own with before | ⟨fresh, -⟩
    · exact at_.kept.owned address before
    · exact Or.inr fresh
  · rcases owned output own with before | ⟨-, -, differs⟩
    · exact at_.foreign before
    · exact differs rfl
  · exact at_.exact_ tags values (same.tags.symm.trans found) (same.values.symm.trans there)

theorem owned_nodup {cache : Cache Sig} : cache.owned.Nodup ↔
    (∀ address, cache.values = some address → cache.pinned ≠ some address ∧ cache.staging ≠ some address) ∧
      ∀ address, cache.pinned = some address → cache.staging ≠ some address := by
  unfold Cache.owned
  cases cache.values with
  | none | some => cases cache.pinned <;> cases cache.staging <;> simp [eq_comm]

/-- A new buffer is adopted for staging. -/
theorem At.adoptNew {earlier : Machine Sig Row}
    (at_ : At rowBytes budget start weight ids output cache filled earlier) (cache' : Cache Sig)
    (same : SameRows cache cache')
    (buffers : ∀ address, cache'.pinned = some address ∨ cache'.staging = some address →
      (cache.pinned = some address ∨ cache.staging = some address) ∨ address = earlier.next)
    (apart : ∀ address, cache'.pinned = some address → cache'.staging ≠ some address) :
    At rowBytes budget start weight ids output cache' filled
      ((earlier.allocate (stagingCapacity rowBytes budget weight.signature)).put fun _ => cache') := by
  have known : ∀ address ∈ cache.owned, address < earlier.next := by
    intro address own
    rw [← at_.fields] at own
    exact at_.layout.allocated address own
  have before := owned_nodup.mp (show cache.owned.Nodup by rw [← at_.fields]; exact at_.layout.distinct)
  refine at_.allocate.adopt same (owned_nodup.mpr ⟨fun address found => ?_, apart⟩) fun address staged => ?_
  · have there := same.values.symm.trans found
    have old := known address (mem_owned.mpr (Or.inl there))
    constructor
    · intro pinned
      rcases buffers address (Or.inl pinned) with (held | held) | new
      · exact (before.1 address there).1 held
      · exact (before.1 address there).2 held
      · omega
    · intro staged
      rcases buffers address (Or.inr staged) with (held | held) | new
      · exact (before.1 address there).1 held
      · exact (before.1 address there).2 held
      · omega
  · rcases buffers address staged with held | rfl
    · exact Or.inl held
    · refine Or.inr ⟨at_.kept.next, Nat.lt_succ_self _, (ne_of_lt at_.known).symm, ?_⟩
      rw [heap_allocated, length_replicate]

/-- Afterwards there are staging buffers, unless one of them could not be made before. -/
theorem prepare_ok (memory : calm → refused .staging = false)
    (ready : calm → cache.pinned ≠ none → cache.staging ≠ none) :
    Triple calm (At rowBytes budget start weight ids output cache filled) (prepare rowBytes budget refused weight)
      (fun _ machine => ∃ cache', (SameRows cache cache' ∧ cache'.ticket = cache.ticket ∧
          (calm → cache'.pinned ≠ none ∧ cache'.staging ≠ none)) ∧
        At rowBytes budget start weight ids output cache' filled machine)
      (Broken rowBytes budget start) := by
  refine field_bind (fun _ at_ => at_.fields) ?_
  refine when (fun absent => ?_) fun present => ?_
  · refine (empty_rule fun _ at_ => at_.toBroken).bind fun first => ?_
    have adopted : Triple calm
        (fun machine => ∃ earlier, At rowBytes budget start weight ids output cache filled earlier ∧
          first = earlier.next ∧
          machine = earlier.allocate (stagingCapacity rowBytes budget weight.signature))
        (assign fun cache => { cache with pinned := some first })
        (fun _ => At rowBytes budget start weight ids output { cache with pinned := some first } filled)
        (Broken rowBytes budget start) := by
      refine change ?_
      rintro _ ⟨earlier, at_, rfl, rfl⟩
      have known : ∀ address, cache.staging = some address → address < earlier.next := by
        intro address found
        refine at_.layout.allocated address (mem_owned.mpr (Or.inr (Or.inr ?_)))
        rw [at_.fields]
        exact found
      have now := at_.adoptNew { cache with pinned := some earlier.next }
        ⟨rfl, rfl, rfl, rfl, rfl, rfl⟩ (fun address staged => ?_) fun address same staged => ?_
      · have fields := at_.fields
        subst fields
        exact now
      · rcases staged with same | staged
        · exact Or.inr (Option.some.inj same).symm
        · exact Or.inl (Or.inr staged)
      · have := known address staged
        have := Option.some.inj same
        omega
    refine adopted.bind fun _ => ?_
    refine (reserve_rule (fun _ _ at_ => at_.toBroken) memory).bind fun second => ?_
    refine change ?_
    rintro _ ⟨earlier, at_, rfl, rfl⟩
    have known : first < earlier.next := by
      refine at_.layout.allocated first (mem_owned.mpr (Or.inr (Or.inl ?_)))
      rw [at_.fields]
    have now := at_.adoptNew { cache with pinned := some first, staging := some earlier.next }
      ⟨rfl, rfl, rfl, rfl, rfl, rfl⟩ (fun address staged => ?_) fun address same staged => ?_
    · refine ⟨{ cache with pinned := some first, staging := some earlier.next },
        ⟨⟨rfl, rfl, rfl, rfl, rfl, rfl⟩, rfl, fun _ => ⟨nofun, nofun⟩⟩, ?_⟩
      have fields : (earlier.allocate (stagingCapacity rowBytes budget weight.signature)).cache
          = { cache with pinned := some first } := at_.fields
      unfold put at now ⊢
      rw [fields]
      exact now
    · rcases staged with same | same
      · exact Or.inl (Or.inl same)
      · exact Or.inr (Option.some.inj same).symm
    · have := Option.some.inj same
      have := Option.some.inj staged
      omega
  · exact fun machine at_ => ⟨cache, ⟨⟨rfl, rfl, rfl, rfl, rfl, rfl⟩, rfl,
      fun quiet => ⟨present, ready quiet present⟩⟩, at_⟩

theorem stage_rule {rows : List (Option Row)}
    (staged : cache.pinned = some address ∨ cache.staging = some address) (length : rows.length = count)
    (fits : count ≤ stagingCapacity rowBytes budget weight.signature) :
    Triple calm (At rowBytes budget start weight ids output cache filled)
      (copyInto address ((arange count).zip rows))
      (fun _ machine => At rowBytes budget start weight ids output cache filled machine ∧
        indexSelect (machine.heap address) (arange count) = some rows)
      (Broken rowBytes budget start) := by
  refine (copyInto_rule (fun _ at_ => at_.toBroken) fun _ machine at_ => ?_).imp ?_
  · obtain ⟨signature, there, sized⟩ := at_.layout.staged address (by rw [at_.fields]; exact staged)
    rw [at_.signature] at there
    cases there
    rw [keys_zip (length.trans arange_length.symm), sized]
    intro index mem
    have inside := mem_arange.mp mem
    omega
  · rintro _ _ ⟨earlier, buffer, at_, copied, rfl⟩
    refine ⟨at_.writeStaging staged (indexCopy_length copied), ?_⟩
    rw [heap_write]
    exact select_copied length copied

/-- The rows of a chunk are in the staging buffer. -/
theorem transfer_ok {pinned : ℕ} (found : cache.pinned = some pinned)
    (ready : calm → cache.staging ≠ none) (within : Within chunk weight.rows.length)
    (fits : chunk.length ≤ stagingCapacity rowBytes budget weight.signature) :
    Triple calm (At rowBytes budget start weight ids output cache filled) (transfer weight chunk)
      (fun _ machine => ∃ staging cells, (cache.staging = some staging ∧
          List.Forall₂ (IsRow weight.rows) chunk cells) ∧
        At rowBytes budget start weight ids output cache filled machine ∧
          indexSelect (machine.heap staging) (arange chunk.length) = some cells)
      (Broken rowBytes budget start) := by
  have broken : ∀ machine : Machine Sig Row, At rowBytes budget start weight ids output cache filled machine →
      Broken rowBytes budget start machine := fun _ at_ => at_.toBroken
  refine known_bind broken (fun _ at_ => at_.fields) found ?_
  have within' : Within chunk (weight.rows.map some).length := by
    rw [length_map]
    exact within
  refine compute_bind broken (fun _ => indexSelect_some within') fun rows selected => ?_
  have all := selected_rows selected
  have length : rows.length = chunk.length := all.length_eq.symm
  refine (stage_rule (Or.inl found) length fits).bind fun _ => ?_
  have read : Triple calm (fun machine => At rowBytes budget start weight ids output cache filled machine ∧
      indexSelect (machine.heap pinned) (arange chunk.length) = some rows)
      (select pinned (arange chunk.length)) (fun staged machine => staged = rows ∧
        At rowBytes budget start weight ids output cache filled machine) (Broken rowBytes budget start) := by
    refine (select_rule (fun _ known => broken _ known.1) fun _ machine known => ?_).imp
      fun staged machine known => ?_
    · intro index mem
      obtain ⟨row, -, there⟩ := forall₂_left (indexSelect_iff.mp known.2) mem
      exact rowAt_within there
    · obtain ⟨again, at_, before⟩ := known
      rw [before] at again
      exact ⟨(Option.some.inj again).symm, at_⟩
  refine read.bind fun staged => given ?_
  rintro rfl
  refine tensor_bind broken (fun _ at_ => at_.fields) ready fun staging there => ?_
  exact (stage_rule (Or.inr there) length fits).imp
    fun _ machine known => ⟨staging, staged, ⟨there, all⟩, known⟩

section

variable (at_ : At rowBytes budget start weight ids output cache filled machine)
include at_

theorem At.ticket {ticket : Option (Ticket Sig)} :
    At rowBytes budget start weight ids output { cache with ticket := ticket } filled
      (machine.put fun cache => { cache with ticket := ticket }) := by
  have fields := at_.fields
  subst fields
  exact ⟨⟨⟨⟨at_.layout.allocated, at_.layout.distinct, at_.layout.tags, at_.layout.staged⟩,
    ⟨at_.kept.next, at_.kept.frame, at_.kept.owned⟩, at_.table, at_.stamp⟩, at_.signature, at_.fresh,
    at_.known, at_.foreign, at_.length, at_.done⟩, rfl, at_.exact_⟩

theorem At.widen {filled' : ℤ → Prop} (less : ∀ position, filled' position → filled position) :
    At rowBytes budget start weight ids output cache filled' machine :=
  ⟨⟨at_.toBroken, at_.signature, at_.fresh, at_.known, at_.foreign, at_.length,
    fun position done => at_.done position (less position done)⟩, at_.fields, at_.exact_⟩

end

/-- What is known of the cache while a transfer is on its way. -/
structure OnItsWay (handle : ℕ) (weight : Weight Sig Row) (chunk : List ℤ) (cache : Cache Sig)
    (ticket : Ticket Sig) (staging : ℕ) (cache' : Cache Sig) : Prop where
  same : SameRows cache cache'
  outstanding : cache'.ticket = some ticket
  staging : cache'.staging = some staging
  pinned : cache'.pinned ≠ none
  fields : ticket = ⟨cache.generation, handle, weight.signature, weight.version, chunk.length⟩

variable {handle : ℕ}

theorem beginTransfer_ok (memory : calm → refused .staging = false) (free : cache.ticket = none)
    (ready : calm → cache.pinned ≠ none → cache.staging ≠ none)
    (within : Within chunk weight.rows.length)
    (fits : chunk.length ≤ stagingCapacity rowBytes budget weight.signature) :
    Triple calm (At rowBytes budget start weight ids output cache filled)
      (beginTransfer rowBytes budget refused handle weight chunk)
      (fun ticket machine => ∃ cache' staging cells,
        (OnItsWay handle weight chunk cache ticket staging cache' ∧
          List.Forall₂ (IsRow weight.rows) chunk cells) ∧
        At rowBytes budget start weight ids output cache' filled machine ∧
          indexSelect (machine.heap staging) (arange chunk.length) = some cells)
      (Broken rowBytes budget start) := by
  refine field_bind (fun _ at_ => at_.fields) ?_
  rw [if_neg (not_not.mpr free)]
  refine (prepare_ok memory ready).bind fun _ => exists_ fun cache₁ => given fun prepared => ?_
  obtain ⟨same, ticket, buffers⟩ := prepared
  refine tensor_bind (fun _ at_ => at_.toBroken) (fun _ at_ => at_.fields) (fun quiet => (buffers quiet).1)
    fun pinned there => ?_
  have sized : Triple calm (At rowBytes budget start weight ids output cache₁ filled)
      (Prog.look fun machine => (machine.heap pinned).length) (fun size machine =>
        size = stagingCapacity rowBytes budget weight.signature ∧
          At rowBytes budget start weight ids output cache₁ filled machine) (Broken rowBytes budget start) := by
    refine look fun machine at_ => ⟨?_, at_⟩
    obtain ⟨signature, there', sized⟩ := at_.layout.staged pinned (by rw [at_.fields]; exact Or.inl there)
    rw [at_.signature] at there'
    cases there'
    exact sized
  refine sized.bind fun size => given ?_
  rintro rfl
  rw [if_neg (not_lt.mpr fits)]
  refine (transfer_ok there (fun quiet => (buffers quiet).2) within fits).bind fun _ =>
    exists_ fun staging => exists_ fun cells => given fun moved => ?_
  obtain ⟨staged, all⟩ := moved
  refine field_bind (fun _ known => known.1.fields) ?_
  let ticket : Ticket Sig := ⟨cache₁.generation, handle, weight.signature, weight.version, chunk.length⟩
  have assigned : Triple calm
      (fun machine => At rowBytes budget start weight ids output cache₁ filled machine ∧
        indexSelect (machine.heap staging) (arange chunk.length) = some cells)
      (assign fun cache => { cache with ticket := some ticket })
      (fun _ machine => At rowBytes budget start weight ids output { cache₁ with ticket := some ticket } filled
        machine ∧ indexSelect (machine.heap staging) (arange chunk.length) = some cells)
      (Broken rowBytes budget start) := change fun machine known => ⟨known.1.ticket, known.2⟩
  refine assigned.bind fun _ => pure fun machine known => ?_
  refine ⟨{ cache₁ with ticket := some ticket }, staging, cells, ⟨⟨⟨same.values, same.tags, same.signature,
    same.weight, same.version, same.generation⟩, rfl, staged, ?_, ?_⟩, all⟩, known⟩
  · rw [there]
    exact some_ne_none pinned
  · rw [← same.generation]

variable {pairs : List (ℤ × ℤ)}

theorem inChunk_pairs {before rest : List ℤ}
    (each : ∀ pair ∈ pairs, ∃ id, rowAt ids pair.1 = some id ∧ rowAt (before ++ (chunk ++ rest)) pair.2
      = some id) :
    List.Forall₂ (fun position place => ∃ id, rowAt ids position = some id ∧ rowAt chunk place = some id)
      ((inChunk pairs before.length chunk.length).map fst)
      ((inChunk pairs before.length chunk.length).map (·.2 - (before.length : ℤ))) := by
  refine forall₂_map_left_iff.mpr (forall₂_map_right_iff.mpr (forall₂_same.mpr ?_))
  intro pair mem
  obtain ⟨there, inside⟩ := mem_filter.mp mem
  rw [decide_eq_true_eq] at inside
  obtain ⟨id, wanted, held⟩ := each pair there
  refine ⟨id, wanted, ?_⟩
  obtain ⟨index, same, found⟩ := rowAt_index held
  rw [getElem?_append_right (by omega), getElem?_append_left (by omega)] at found
  have place : pair.2 - (before.length : ℤ) = ((index - before.length : ℕ) : ℤ) := by omega
  rw [place]
  exact rowAt_some found

variable [DecidableEq Sig]

theorem consumeTransfer_ok {staging : ℕ} {ticket : Ticket Sig} {cache' : Cache Sig}
    (way : OnItsWay handle weight chunk cache ticket staging cache') :
    Triple calm (fun machine => At rowBytes budget start weight ids output cache' filled machine ∧
        indexSelect (machine.heap staging) (arange chunk.length) = some cells)
      (consumeTransfer handle weight ticket)
      (fun rows machine => rows = some cells ∧
        At rowBytes budget start weight ids output cache' filled machine)
      (Broken rowBytes budget start) := by
  refine field_bind (fun _ known => known.1.fields) ?_
  rw [id_eq]
  have valid : ¬ (cache'.ticket ≠ some ticket ∨ ticket.generation ≠ cache'.generation ∨
      ticket.weight ≠ handle ∨ ticket.signature ≠ weight.signature ∨ ticket.version ≠ weight.version) := by
    rw [way.fields, way.same.generation, ← way.fields]
    simp only [way.outstanding, way.fields, ne_eq, not_true_eq_false, or_self, not_false_eq_true]
  rw [if_neg valid]
  refine known_bind (fun _ known => known.1.toBroken) (fun _ known => known.1.fields) way.staging ?_
  have count : ticket.count = chunk.length := by rw [way.fields]
  rw [count]
  refine (select_rule (fun _ known => known.1.toBroken) fun _ machine known => ?_).bind fun rows => ?_
  · intro index mem
    obtain ⟨row, -, there⟩ := forall₂_left (indexSelect_iff.mp known.2) mem
    exact rowAt_within there
  · refine pure fun machine known => ⟨?_, known.2.1⟩
    rw [known.1] at known
    exact known.2.2

omit [DecidableEq Sig] in
theorem Broken.finish (broken : Broken rowBytes budget start machine) :
    Broken rowBytes budget start (finishTransfer machine) :=
  ⟨⟨broken.layout.allocated, broken.layout.distinct, broken.layout.tags, broken.layout.staged⟩,
    ⟨broken.kept.next, broken.kept.frame, broken.kept.owned⟩, broken.table, broken.stamp⟩

/-- What is known of the cache between two chunks. -/
structure Between (calm : Prop) (count values : ℕ) (cache : Cache Sig) : Prop where
  ticket : cache.ticket = none
  values : cache.values = some values
  tags : ∃ tags, cache.tags = some tags ∧ tags.length = count
  ready : calm → cache.pinned ≠ none → cache.staging ≠ none

def Hits (ids slots tags hits : List ℤ) : Prop :=
  ∀ position ∈ hits, ∃ id slot, rowAt ids position = some id ∧ 0 ≤ id ∧
    rowAt slots position = some slot ∧ rowAt tags slot = some id

/-- One chunk of missing rows is read, and the hits before the first one. -/
theorem readChunk_ok (memory : calm → refused .staging = false) {slots hits before rest : List ℤ}
    (between : Between calm tags.length values cache) (tagged : cache.tags = some tags) (positive : 1 ≤ tags.length)
    (hit : before = [] → Hits ids slots tags hits) (within : Within chunk weight.rows.length)
    (fits : chunk.length ≤ stagingCapacity rowBytes budget weight.signature)
    (each : ∀ pair ∈ pairs, ∃ id, rowAt ids pair.1 = some id ∧ rowAt (before ++ (chunk ++ rest)) pair.2
      = some id) :
    Triple calm (At rowBytes budget start weight ids output cache filled)
      (readChunk rowBytes budget refused handle weight output slots hits pairs before.length chunk)
      (fun _ machine => ∃ cache', Between calm tags.length values cache' ∧
        At rowBytes budget start weight ids output cache' (fun position => filled position ∨
          (before = [] ∧ position ∈ hits) ∨
            position ∈ (inChunk pairs before.length chunk.length).map fst) machine)
      (Broken rowBytes budget start) := by
  refine (beginTransfer_ok memory between.ticket between.ready within fits).bind fun ticket =>
    exists_ fun cache₁ => exists_ fun staging => exists_ fun cells =>
      given fun begun => ?_
  obtain ⟨way, all⟩ := begun
  have values₁ : cache₁.values = some values := way.same.values.trans between.values
  have tags₁ : cache₁.tags = some tags := way.same.tags.trans tagged
  -- The hits are read while the rows are on their way.
  have hits_ : Triple calm (fun machine => At rowBytes budget start weight ids output cache₁ filled machine ∧
      indexSelect (machine.heap staging) (arange chunk.length) = some cells)
      (.when (before.length = 0 ∧ hits ≠ []) (readHits output slots hits))
      (fun _ machine => At rowBytes budget start weight ids output cache₁
          (fun position => filled position ∨ (before = [] ∧ position ∈ hits)) machine ∧
        indexSelect (machine.heap staging) (arange chunk.length) = some cells)
      (Broken rowBytes budget start) := by
    refine when (fun first => ?_) fun later machine known => ⟨known.1.widen ?_, known.2⟩
    · have none_ : before = [] := length_eq_zero_iff.mp first.1
      have stable : ∀ (machine : Machine Sig Row) (buffer : List (Option Row)), (staging ≠ output ∧
          indexSelect (machine.heap staging) (arange chunk.length) = some cells) →
          staging ≠ output ∧ indexSelect ((machine.write output buffer).heap staging)
            (arange chunk.length) = some cells := by
        rintro machine buffer ⟨differs, staged⟩
        rw [heap_write_ne differs]
        exact ⟨differs, staged⟩
      refine (readHits_ok _ stable values₁ tags₁ (hit none_)).weaken
        (fun machine known => ⟨known.1, fun same => known.1.foreign ?_, known.2⟩)
        (fun _ _ known => ⟨known.1.widen ?_, known.2.2⟩) fun _ raised => raised
      · rw [known.1.fields, ← same]
        exact mem_owned.mpr (Or.inr (Or.inr way.staging))
      · exact fun position done => done.imp_right And.right
    · rintro position (old | ⟨first, now⟩)
      · exact old
      · exact absurd ⟨by rw [first]; rfl, ne_nil_of_mem now⟩ later
  refine hits_.bind fun _ => ?_
  refine known_bind (fun _ known => known.1.toBroken) (fun _ known => known.1.fields) tags₁ ?_
  obtain ⟨plan, planned, plan_⟩ := rowPlan_ok chunk ((inChunk pairs before.length chunk.length).map fst)
    ((inChunk pairs before.length chunk.length).map (·.2 - (before.length : ℤ))) positive
  refine compute_bind (fun _ known => known.1.toBroken) (fun _ => ⟨plan, planned⟩) fun plan' planned' => ?_
  rw [planned] at planned'
  cases planned'
  refine (consumeTransfer_ok way).bind fun rows => given ?_
  rintro rfl
  refine (installRows_ok values₁ tags₁ plan_ all (inChunk_pairs each)).ensure (fun _ machine known => ?_) fun _ raised => raised.finish
  obtain ⟨tags', length, at_⟩ := known
  refine ⟨{ cache₁ with tags := some tags', ticket := none }, ⟨rfl, values₁, ⟨tags', rfl, length⟩,
    fun _ _ wrong => ?_⟩, (At.ticket at_).widen fun position done => ?_⟩
  · exact absurd (way.staging.symm.trans wrong) (some_ne_none staging)
  · rw [or_assoc]
    exact done

theorem readChunks_ok (memory : calm → refused .staging = false) {slots hits : List ℤ} (before : List ℤ)
    {chunks : List (List ℤ)}
    (between : Between calm count values cache) (positive : 1 ≤ count)
    (hit : before = [] → ∀ tags, cache.tags = some tags → Hits ids slots tags hits)
    (fits : ∀ chunk ∈ chunks, chunk ≠ [] ∧ Within chunk weight.rows.length ∧ chunk.length ≤
      stagingCapacity rowBytes budget weight.signature)
    (each : ∀ pair ∈ pairs, ∃ id, rowAt ids pair.1 = some id ∧ rowAt (before ++ chunks.flatten) pair.2 =
      some id) :
    Triple calm (At rowBytes budget start weight ids output cache filled)
      (readChunks rowBytes budget refused handle weight output slots hits pairs before.length chunks)
      (fun _ machine => ∃ cache', Between calm count values cache' ∧
        At rowBytes budget start weight ids output cache' (fun position => filled position ∨
          (before = [] ∧ chunks ≠ [] ∧ position ∈ hits) ∨
            ∃ pair ∈ pairs, pair.1 = position ∧ (before.length : ℤ) ≤ pair.2) machine)
      (Broken rowBytes budget start) := by
  induction chunks generalizing before cache filled with
  | nil =>
    refine pure fun machine at_ => ⟨cache, between, at_.widen ?_⟩
    rintro position (old | ⟨-, none_, -⟩ | ⟨pair, mem, -, late⟩)
    · exact old
    · exact absurd rfl none_
    · obtain ⟨id, -, held⟩ := each pair mem
      have inside := rowAt_within held
      rw [flatten_nil, append_nil] at inside
      omega
  | cons chunk rest known =>
    obtain ⟨⟨filled_, within, small⟩, others⟩ := forall_mem_cons.mp fits
    obtain ⟨tags, tagged, length⟩ := between.tags
    subst length
    refine (readChunk_ok memory between tagged positive (fun none_ => hit none_ tags tagged) within small each).bind
      fun _ => exists_ fun cache' => given fun between' => ?_
    have start_ : before.length + chunk.length = (before ++ chunk).length := length_append.symm
    rw [start_]
    have later : before ++ chunk ≠ [] := fun none_ => filled_ (append_eq_nil_iff.mp none_).2
    refine (known (before ++ chunk) between' (fun none_ => absurd none_ later) others
      fun pair mem => ?_).imp ?_
    · obtain ⟨id, wanted, held⟩ := each pair mem
      exact ⟨id, wanted, by rw [append_assoc]; exact held⟩
    · rintro _ machine ⟨cache'', between'', at_⟩
      refine ⟨cache'', between'', at_.widen ?_⟩
      rintro position (old | ⟨first, -, now⟩ | ⟨pair, mem, rfl, late⟩)
      · exact Or.inl (Or.inl old)
      · exact Or.inl (Or.inr (Or.inl ⟨first, now⟩))
      · by_cases here : pair.2 < (before.length : ℤ) + chunk.length
        · refine Or.inl (Or.inr (Or.inr (mem_map.mpr ⟨pair, mem_filter.mpr ⟨mem, ?_⟩, rfl⟩)))
          rw [decide_eq_true_eq]
          exact ⟨late, here⟩
        · refine Or.inr (Or.inr ⟨pair, mem, rfl, ?_⟩)
          omega

theorem readMisses_ok (memory : calm → refused .staging = false) {device : Device} {slots hits misses : List ℤ}
    (between : Between calm tags.length values cache) (tagged : cache.tags = some tags)
    (positive : 1 ≤ tags.length) (hit : Hits ids slots tags hits)
    (within : Within ids weight.rows.length) (missing : misses ≠ []) (inside : Within misses ids.length)
    (sized : calm → device = .cuda → rowBytes weight.signature ≠ 0) :
    Triple calm (At rowBytes budget start weight ids output cache filled)
      (readMisses rowBytes budget device refused handle weight output ids slots hits misses)
      (fun _ machine => ∃ cache', Between calm tags.length values cache' ∧
        At rowBytes budget start weight ids output cache' (fun position => filled position ∨
          (device = .cuda ∧ position ∈ hits) ∨ position ∈ misses) machine)
      (Broken rowBytes budget start) := by
  have broken : ∀ machine : Machine Sig Row, At rowBytes budget start weight ids output cache filled machine →
      Broken rowBytes budget start machine := fun _ at_ => at_.toBroken
  refine compute_bind broken (fun _ => indexSelect_some inside) fun missed selected => ?_
  have reads := indexSelect_iff.mp selected
  have pairs := forall₂_comp reads (inverseOf_each missed)
  have rows : Within (unique missed) weight.rows.length := by
    intro id mem
    obtain ⟨position, -, found⟩ := forall₂_right reads (mem_unique.mp mem)
    exact within id (rowAt_mem found)
  have some_ : unique missed ≠ [] := by
    intro none_
    obtain ⟨position, rest, rfl⟩ := exists_cons_of_ne_nil missing
    obtain ⟨id, mem, -⟩ := forall₂_left reads mem_cons_self
    have there := mem_unique.mpr mem
    rw [none_] at there
    cases there
  refine ite (fun host => ?_) fun other => ?_
  · have rows' : Within (unique missed) (weight.rows.map some).length := by
      rw [length_map]
      exact rows
    refine compute_bind broken (fun _ => indexSelect_some rows') fun cells read => ?_
    refine known_bind broken (fun _ at_ => at_.fields) tagged ?_
    obtain ⟨plan, planned, plan_⟩ := rowPlan_ok (unique missed) misses (inverseOf missed) positive
    refine compute_bind broken (fun _ => ⟨plan, planned⟩) fun plan' planned' => ?_
    rw [planned] at planned'
    cases planned'
    refine (installRows_ok between.values tagged plan_ (selected_rows read) pairs).imp ?_
    rintro _ machine ⟨tags'', length, at_⟩
    refine ⟨{ cache with tags := some tags'' },
      ⟨between.ticket, between.values, ⟨tags'', rfl, length⟩, between.ready⟩, at_.widen ?_⟩
    rintro position (old | ⟨cuda, -⟩ | now)
    · exact Or.inl old
    · rw [host] at cuda
      cases cuda
    · exact Or.inr now
  · have cuda : device = .cuda := by
      cases device with
      | cpu => exact absurd rfl other
      | cuda => rfl
    refine ite (fun zero => fail fun machine at_ =>
      ⟨at_.toBroken, fun quiet => sized quiet cuda zero⟩) fun _ => ?_
    have flat := split_flatten (stagingCapacity rowBytes budget weight.signature) (unique missed)
    have length : misses.length = (inverseOf missed).length := pairs.length_eq
    refine (readChunks_ok memory [] between positive (fun _ tags' same => ?_) (fun chunk mem => ?_)
      fun pair mem => ?_).imp ?_
    · rw [tagged] at same
      cases same
      exact hit
    · obtain ⟨filled_, small⟩ := split_each some_ (Nat.lt_of_lt_of_le Nat.one_pos (le_max_left _ _)) chunk mem
      refine ⟨filled_, fun id inside' => rows id ?_, small⟩
      rw [← flat]
      exact mem_flatten.mpr ⟨chunk, mem, inside'⟩
    · rw [nil_append, flat]
      exact (forall₂_iff_zip.mp pairs).2 mem
    · rintro _ machine ⟨cache', between', at_⟩
      refine ⟨cache', between', at_.widen ?_⟩
      rintro position (old | ⟨-, now⟩ | now)
      · exact Or.inl old
      · refine Or.inr (Or.inl ⟨rfl, fun none_ => some_ ?_, now⟩)
        rw [← flat, none_]
        rfl
      · rw [← keys_zip length.symm] at now
        obtain ⟨pair, mem, rfl⟩ := mem_map.mp now
        obtain ⟨id, -, held⟩ := (forall₂_iff_zip.mp pairs).2 mem
        exact Or.inr (Or.inr ⟨pair, mem, rfl, (rowAt_within held).1⟩)

omit [DecidableEq Sig] in
/-- The positions whose tag is, or is not, the row. -/
theorem mem_positions {found : List ℤ} {hit : Bool} {position : ℤ} (length : found.length = ids.length) :
    position ∈ positions ids found hit ↔ ∃ id tag, rowAt ids position = some id ∧
      rowAt found position = some tag ∧ decide (id = tag) = hit := by
  have sized : (ids.zip found).length = ids.length := by
    rw [length_zip, length, Nat.min_self]
  unfold positions
  rw [mem_filterMap]
  constructor
  · rintro ⟨⟨place, id, tag⟩, mem, kept⟩
    split_ifs at kept with same
    cases kept
    obtain ⟨wanted, there⟩ := rowAt_zip.mp ((mem_arange_zip sized).mp mem)
    exact ⟨id, tag, wanted, there, same⟩
  · rintro ⟨id, tag, wanted, there, same⟩
    refine ⟨(position, id, tag), (mem_arange_zip sized).mpr (rowAt_zip.mpr ⟨wanted, there⟩), ?_⟩
    rw [if_pos same]

/-- What holds of a cache before rows are read. -/
structure Ready (rowBytes : Sig → ℕ) (budget : ℕ) (weight : Weight Sig Row) (start : Machine Sig Row) :
    Prop where
  layout : CacheLayout rowBytes budget start
  signature : start.cache.signature = some weight.signature
  ticket : ∀ tags, start.cache.tags = some tags → start.cache.ticket = none
  exact_ : Exact weight start.cache start

omit [DecidableEq Sig] in
theorem Ready.made (ready : Ready rowBytes budget weight start) :
    At rowBytes budget start weight ids start.next start.cache (fun _ => False)
      (start.allocate ids.length) := by
  refine ⟨⟨⟨ready.layout.allocate, Kept.refl.allocate, rfl, rfl⟩, ready.signature, le_rfl,
    Nat.lt_succ_self _, fun own => ?_, ?_, fun _ none_ => none_.elim⟩, rfl, fun tags values found there => ?_⟩
  · exact absurd (ready.layout.allocated _ own) (lt_irrefl _)
  · rw [heap_allocated, length_replicate]
  · rw [heap_allocate (ready.layout.allocated values (mem_owned.mpr (Or.inl there)))]
    exact ready.exact_ tags values found there

/-- A read within `try`: each position of the output has its row. -/
theorem readRows_ok {device : Device} (memory : calm → refused .staging = false)
    (ready : Ready rowBytes budget weight start)
    (within : Within ids weight.rows.length)
    (complete : calm → start.cache.tags ≠ none ∧ (start.cache.pinned ≠ none → start.cache.staging ≠
      none)) (sized : calm → device = .cuda → rowBytes weight.signature ≠ 0) :
    Triple calm (fun machine => machine = start) (readRows rowBytes budget device refused handle weight ids)
      (fun output machine => ∃ cache', cache'.ticket = none ∧
        At rowBytes budget start weight ids output cache' (fun position => 0 ≤ position ∧ position < ids.length)
          machine)
      (Broken rowBytes budget start) := by
  have made : Triple calm (fun machine => machine = start) (empty ids.length)
      (fun output => At rowBytes budget start weight ids output start.cache fun _ => False)
      (Broken rowBytes budget start) := by
    refine (empty_rule fun machine same => ?_).imp ?_
    · rw [same]
      exact ⟨ready.layout, Kept.refl, rfl, rfl⟩
    · rintro _ _ ⟨_, rfl, rfl, rfl⟩
      exact ready.made
  refine made.bind fun output => ?_
  refine tensor_bind (fun _ at_ => at_.toBroken) (fun _ at_ => at_.fields) (fun quiet => (complete quiet).1)
    fun tags tagged => ?_
  obtain ⟨positive, values, found, -⟩ := ready.layout.tags tags tagged
  have between : Between calm tags.length values start.cache :=
    ⟨ready.ticket tags tagged, found, ⟨tags, tagged, rfl⟩, fun quiet => (complete quiet).2⟩
  have slots : Within (ids.map (· % (tags.length : ℤ))) tags.length := by
    intro slot mem
    obtain ⟨id, -, rfl⟩ := mem_map.mp mem
    exact ⟨Int.emod_nonneg _ (by omega), Int.emod_lt_of_pos _ (by omega)⟩
  refine compute_bind (fun _ at_ => at_.toBroken) (fun _ => indexSelect_some slots) fun there selected => ?_
  have length : there.length = ids.length := by rw [indexSelect_length selected, length_map]
  have hit : Hits ids (ids.map (· % (tags.length : ℤ))) tags (positions ids there true) := by
    intro position mem
    obtain ⟨id, tag, wanted, held, same⟩ := (mem_positions length).mp mem
    obtain rfl : id = tag := of_decide_eq_true same
    have slot : rowAt (ids.map (· % (tags.length : ℤ))) position = some (id % (tags.length : ℤ)) := by
      rw [rowAt_map, wanted]
      rfl
    have tag := forall₂_rowAt (indexSelect_iff.mp selected) slot held
    exact ⟨id, _, wanted, (within id (rowAt_mem wanted)).1, slot, tag⟩
  have missing : Within (positions ids there false) ids.length := by
    intro position mem
    obtain ⟨id, tag, wanted, -⟩ := (mem_positions length).mp mem
    exact rowAt_within wanted
  -- On the host, or without misses, the hits are read first.
  have hits_ : Triple calm (At rowBytes budget start weight ids output start.cache fun _ => False)
      (.when (positions ids there true ≠ [] ∧ (positions ids there false = [] ∨ device = .cpu))
        (readHits output (ids.map (· % (tags.length : ℤ))) (positions ids there true)))
      (fun _ => At rowBytes budget start weight ids output start.cache fun position =>
        (positions ids there false = [] ∨ device = .cpu) ∧ position ∈ positions ids there true)
      (Broken rowBytes budget start) := by
    refine when (fun some_ => ?_) fun none_ machine at_ => at_.widen ?_
    · refine (readHits_ok (fun _ => True) (fun _ _ same => same) found tagged hit).weaken
        (fun _ at_ => ⟨at_, trivial⟩) (fun _ machine known => known.1.widen ?_) fun _ raised => raised
      exact fun position now => Or.inr now.2
    · rintro position ⟨first, now⟩
      exact absurd ⟨List.ne_nil_of_mem now, first⟩ none_
  refine hits_.bind fun _ => ?_
  have misses_ : Triple calm (At rowBytes budget start weight ids output start.cache fun position =>
        (positions ids there false = [] ∨ device = .cpu) ∧ position ∈ positions ids there true)
      (.when (positions ids there false ≠ []) (readMisses rowBytes budget device refused handle weight output ids
        (ids.map (· % (tags.length : ℤ))) (positions ids there true) (positions ids there false)))
      (fun _ machine => ∃ cache', cache'.ticket = none ∧ At rowBytes budget start weight ids output cache'
        (fun position => position ∈ positions ids there true ∨ position ∈ positions ids there false) machine)
      (Broken rowBytes budget start) := by
    refine when (fun some_ => ?_) fun none_ machine at_ => ?_
    · refine (readMisses_ok memory between tagged positive hit within some_ missing sized).imp ?_
      rintro _ machine ⟨cache', between', at_⟩
      refine ⟨cache', between'.ticket, at_.widen ?_⟩
      rintro position (now | now)
      · cases device with
        | cpu => exact Or.inl ⟨Or.inr rfl, now⟩
        | cuda => exact Or.inr (Or.inl ⟨rfl, now⟩)
      · exact Or.inr (Or.inr now)
    · refine ⟨start.cache, between.ticket, at_.widen ?_⟩
      rintro position (now | now)
      · exact ⟨Or.inl (not_not.mp none_), now⟩
      · rw [not_not.mp none_] at now
        cases now
  refine misses_.bind fun _ => pure fun machine known => ?_
  obtain ⟨cache', free, at_⟩ := known
  refine ⟨cache', free, at_.widen fun position inside => ?_⟩
  obtain ⟨id, wanted⟩ := exists_row inside
  obtain ⟨tag, held⟩ : ∃ tag, rowAt there position = some tag := exists_row (by rw [length]; exact inside)
  by_cases same : id = tag
  · exact Or.inl ((mem_positions length).mpr ⟨id, tag, wanted, held, decide_eq_true same⟩)
  · exact Or.inr ((mem_positions length).mpr ⟨id, tag, wanted, held, decide_eq_false same⟩)

end Read

end TinyDSV41.Engram
