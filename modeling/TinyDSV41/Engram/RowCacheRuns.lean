/-
**The calls of a row cache, in any order.**

Between the calls the tables may change: with a new version, or silently. A table that has changed
silently is not read until the cache was cleared.

* `Good` — what holds between two calls.
* `read_ok` — one read.
* `row_cache` — all calls, updates and failures in any order.
* `missing_staging_fails` — a read behind one that had no memory for a staging buffer.
-/

import TinyDSV41.Engram.RowCacheBuffers

namespace TinyDSV41.Engram

open List Lib Triple Cache Option Kept

variable {Sig Row : Type}

/-- What holds of a cache between two calls. -/
structure Good (rowBytes : Sig → ℕ) (budget : ℕ) (weights : ℕ → Weight Sig Row) (stale : Set ℕ)
    (machine : Machine Sig Row) : Prop where
  layout : CacheLayout rowBytes budget machine
  ticket : machine.cache.version ≠ none → ∀ tags, machine.cache.tags = some tags →
    machine.cache.ticket = none
  current : ∀ version handle, machine.cache.version = some version → machine.cache.weight = some handle →
    version ≤ (weights handle).version
  exact_ : ∀ version handle, machine.cache.version = some version → machine.cache.weight = some handle →
    handle ∉ stale → (weights handle).version = version → Exact (weights handle) machine.cache machine

variable {rowBytes : Sig → ℕ} {budget : ℕ} {weights : ℕ → Weight Sig Row} {stale : Set ℕ}
  {start machine : Machine Sig Row} {calm : Prop} {handle : ℕ} {refused : Buffer → Bool}

theorem Good.forgotten (layout : CacheLayout rowBytes budget machine) (none_ : machine.cache.version = none) :
    Good rowBytes budget weights stale machine := by
  refine ⟨layout, absurd none_, fun version handle found => ?_,
    fun version handle found => ?_⟩
  all_goals
    rw [none_] at found
    cases found

theorem Good.init {heap : ℕ → List (Option Row)} {next : ℕ} :
    Good rowBytes budget weights stale ⟨heap, next, init⟩ := by
  refine Good.forgotten ⟨nofun, nodup_nil, nofun, ?_⟩ rfl
  rintro _ (found | found)
  · cases found
  · cases found

theorem Kept.trans {middle : Machine Sig Row} (one : Kept start middle) (two : Kept middle machine) :
    Kept start machine := by
  refine ⟨one.next.trans two.next, fun address before foreign => ?_, fun address own => ?_⟩
  · have foreign' : address ∉ middle.cache.owned := by
      intro own
      rcases one.owned address own with old | new
      · exact foreign old
      · omega
    rw [two.frame address (before.trans_le one.next) foreign', one.frame address before foreign]
  · rcases two.owned address own with old | new
    · exact one.owned address old
    · exact Or.inr (one.next.trans new)

theorem Kept.put {update : Cache Sig → Cache Sig}
    (owned : ∀ address ∈ (update machine.cache).owned, address ∈ machine.cache.owned) :
    Kept machine (machine.put update) :=
  ⟨le_rfl, fun _ _ _ => rfl, fun address own => Or.inl (owned address own)⟩

/-! ### Clearing -/

theorem CacheLayout.cleared (layout : CacheLayout rowBytes budget machine) :
    CacheLayout rowBytes budget (machine.put cleared) := by
  refine ⟨layout.allocated, layout.distinct, fun tags found => ?_, layout.staged⟩
  obtain ⟨before, there, rfl⟩ := map_eq_some_iff.mp found
  obtain ⟨positive, values, values_, length⟩ := layout.tags before there
  unfold noTags
  rw [length_replicate]
  exact ⟨positive, values, values_, length⟩

/-- `clear`, step by step. -/
theorem clear_ok (good : Good rowBytes budget weights stale start) :
    Triple calm (fun machine => machine = start) clear
      (fun _ machine => machine = start.put cleared)
      (fun machine => Good rowBytes budget weights stale machine ∧ Kept start machine) := by
  refine clear_rule ?_
  rintro ticket same
  refine ⟨⟨⟨good.layout.allocated, good.layout.distinct, good.layout.tags, good.layout.staged⟩,
    fun known tags found => ?_, good.current, good.exact_⟩, ⟨le_rfl, fun _ _ _ => rfl, fun _ own => Or.inl own⟩⟩
  rcases same with rfl | rfl
  · exact good.ticket known tags found
  · rfl

/-! ### Validation -/

/-- The cache is that of a table, as the table is now. -/
structure Current (rowBytes : Sig → ℕ) (budget : ℕ) (handle : ℕ) (weight : Weight Sig Row)
    (machine : Machine Sig Row) : Prop extends Ready rowBytes budget weight machine where
  table : machine.cache.weight = some handle
  stamp : machine.cache.version = some weight.version

theorem Current.good (now : Current rowBytes budget handle (weights handle) machine) :
    Good rowBytes budget weights stale machine := by
  refine ⟨now.layout, fun _ => now.ticket, fun version other found there => ?_,
    fun version other found there _ _ => ?_⟩
  all_goals obtain rfl : handle = other := Option.mem_unique now.table there
  · obtain rfl : (weights handle).version = version := Option.mem_unique now.stamp found
    exact le_rfl
  · exact now.exact_

/-- The cache, when the storage of another table is to replace its own. -/
def Cache.dropped (cache : Cache Sig) : Cache Sig :=
  { cache.cleared with values := none, tags := none, pinned := none, staging := none }

variable {weight : Weight Sig Row}

theorem replace_ok (good : Good rowBytes budget weights stale start)
    (room : 1 ≤ capacity rowBytes budget weight) (memory : calm → ∀ buffer, refused buffer = false) :
    Triple calm (fun machine => machine = start) (replace rowBytes budget refused handle weight)
      (fun _ machine => (Current rowBytes budget handle weight machine ∧ Kept start machine) ∧
        machine.cache.tags ≠ none ∧ machine.cache.pinned = none)
      (fun machine => Good rowBytes budget weights stale machine ∧ Kept start machine) := by
  have empty_ : ∀ address, address ∉ start.cache.dropped.owned := nofun
  have layout : CacheLayout rowBytes budget (start.put dropped) := by
    refine ⟨fun address own => absurd own (empty_ address), nodup_nil, nofun, ?_⟩
    rintro _ (found | found)
    · cases found
    · cases found
  have kept : Kept start (start.put dropped) :=
    put fun address own => absurd own (empty_ address)
  have made : Triple calm (fun machine => machine = start.put dropped)
      (reserve (refused .values) (capacity rowBytes budget weight))
      (fun values machine => values = start.next ∧
        machine = (start.put dropped).allocate (capacity rowBytes budget weight))
      (fun machine => Good rowBytes budget weights stale machine ∧ Kept start machine) := by
    refine (reserve_rule (fun _ machine same => ?_) fun quiet => memory quiet _).imp ?_
    · rw [same]
      exact ⟨Good.forgotten layout rfl, kept⟩
    · rintro _ _ ⟨_, rfl, rfl, rfl⟩
      exact ⟨rfl, rfl⟩
  have kept' : Kept start ((start.put dropped).allocate (capacity rowBytes budget weight)) :=
    kept.allocate
  refine (clear_ok good).bind fun _ => assign_bind (made.bind fun values => given ?_)
  rintro rfl
  have owned : ∀ cache : Cache Sig, cache = { start.cache.dropped with values := some start.next } →
      ∀ address ∈ cache.owned, address = start.next := by
    rintro _ rfl address own
    exact mem_singleton.mp own
  refine assign_bind ((refuse_rule (fun _ machine same => ?_) fun quiet => memory quiet _).bind fun _ => ?_)
  · rw [same]
    refine ⟨Good.forgotten ⟨fun address own => ?_, ?_, nofun, ?_⟩ rfl,
      kept'.next, kept'.frame, fun address own => ?_⟩
    · rw [owned _ rfl address own]
      exact Nat.lt_succ_self _
    · exact nodup_singleton _
    · rintro _ (found | found)
      · cases found
      · cases found
    · rw [owned _ rfl address own]
      exact Or.inr le_rfl
  refine change fun machine same => ?_
  rw [same]
  refine ⟨⟨⟨⟨⟨fun address own => ?_, nodup_singleton _, fun tags found => ?_, ?_⟩, rfl,
    fun _ _ => rfl, fun tags values found there slot id positive held => ?_⟩, rfl, rfl⟩,
    kept'.next, kept'.frame, fun address own => ?_⟩, some_ne_none _, rfl⟩
  · rw [mem_singleton.mp own]
    exact Nat.lt_succ_self _
  · cases found
    rw [length_replicate]
    refine ⟨room, start.next, rfl, ?_⟩
    show (((start.put dropped).allocate (capacity rowBytes budget weight)).heap start.next).length = _
    rw [show start.next = (start.put dropped).next from rfl, Machine.heap_allocated, length_replicate]
  · rintro _ (found | found)
    · cases found
    · cases found
  · cases found
    have none_ := eq_of_mem_replicate (rowAt_mem held)
    omega
  · rw [mem_singleton.mp own]
    exact Or.inr le_rfl

/-- After a read within `try` that failed. -/
theorem forget_ok (now : Current rowBytes budget handle (weights handle) start)
    (broken : Broken rowBytes budget start machine) :
    Good rowBytes budget weights stale (forget machine) ∧ Kept start (forget machine) := by
  unfold forget
  split
  case h_1 none_ =>
    refine ⟨⟨broken.layout, fun _ tags found => ?_, fun version other found there => ?_,
      fun version other found there _ _ tags values tagged => ?_⟩, broken.kept⟩
    · rw [none_] at found
      cases found
    · rw [broken.table, now.table] at there
      rw [broken.stamp, now.stamp] at found
      cases there
      cases found
      exact le_rfl
    · rw [none_] at tagged
      cases tagged
  case h_2 tags found =>
    refine ⟨Good.forgotten ⟨broken.layout.allocated, broken.layout.distinct, fun tags' same => ?_,
      broken.layout.staged⟩ rfl, ⟨broken.kept.next, broken.kept.frame, broken.kept.owned⟩⟩
    cases same
    obtain ⟨positive, values, there, length⟩ := broken.layout.tags tags found
    unfold noTags
    rw [length_replicate]
    exact ⟨positive, values, there, length⟩

theorem At.rows {ids : List ℤ} {output : ℕ} {cache : Cache Sig}
    (at_ : At rowBytes budget start weight ids output cache (fun position => 0 ≤ position ∧ position <
      ids.length) machine) (within : Within ids weight.rows.length) :
    ∃ rows, indexSelect weight.rows ids = some rows ∧ machine.heap output = rows.map some := by
  obtain ⟨rows, selected⟩ := indexSelect_some within
  have length := indexSelect_length selected
  refine ⟨rows, selected, rowAt_ext fun position => ?_⟩
  by_cases inside : 0 ≤ position ∧ position < ids.length
  · obtain ⟨cell, held, id, wanted, row, there, rfl⟩ := at_.done position inside
    obtain ⟨row', found⟩ : ∃ row, rowAt rows position = some row := exists_row (by rw [length]; exact inside)
    have same := forall₂_rowAt (indexSelect_iff.mp selected) wanted found
    rw [there] at same
    rw [held, rowAt_map, found, ← same]
    rfl
  · have none_ : ∀ cells : List (Option Row), cells.length = ids.length → rowAt cells position = none := by
      intro cells sized
      rw [← not_isSome_iff_eq_none, rowAt_isSome, sized]
      exact inside
    rw [none_ _ at_.length, none_ _ (by rw [length_map, length])]

variable [DecidableEq Sig]

/-- `_validate`: afterwards the cache is that of the table. -/
theorem validateWeight_ok (good : Good rowBytes budget weights stale start) (fresh : handle ∉ stale)
    (room : calm → 1 ≤ capacity rowBytes budget (weights handle)) (memory : calm → ∀ buffer, refused buffer = false)
    (whole : calm → start.cache.Whole) :
    Triple calm (fun machine => machine = start) (validateWeight rowBytes budget refused handle (weights handle))
      (fun _ machine => (Current rowBytes budget handle (weights handle) machine ∧ Kept start machine) ∧
        (calm → machine.cache.tags ≠ none ∧ (machine.cache.pinned ≠ none → machine.cache.staging ≠ none)))
      (fun machine => Good rowBytes budget weights stale machine ∧ Kept start machine) := by
  refine field_bind (fun machine => congrArg Machine.cache) ?_
  rw [id_eq]
  refine ite (fun differs => ite (fun small => ?_) fun large => ?_) fun same => ?_
  · refine fail fun machine same => ⟨by rw [same]; exact ⟨good, refl⟩, fun quiet => ?_⟩
    exact absurd (room quiet) (not_le.mpr small)
  · exact (replace_ok good (not_lt.mp large) memory).imp
      fun _ machine known => ⟨known.1, fun _ => ⟨known.2.1, absurd known.2.2⟩⟩
  · obtain ⟨table, signature⟩ := not_or.mp same
    rw [not_not] at table signature
    have there : start.cache.weight ≠ none := by
      rw [table]
      exact some_ne_none handle
    refine when (fun older => ?_) fun current machine same => ?_
    · refine (clear_ok good).bind fun _ => change fun machine same => ?_
      rw [same]
      have layout := good.layout.cleared
      refine ⟨⟨⟨⟨⟨layout.allocated, layout.distinct, layout.tags, layout.staged⟩, signature,
        fun _ _ => rfl, fun tags values found there slot id positive held => ?_⟩, table, rfl⟩,
        ⟨le_rfl, fun _ _ _ => rfl, fun _ own => Or.inl own⟩⟩,
        fun quiet => ⟨fun none_ => (whole quiet).tags there (map_eq_none_iff.mp none_), (whole quiet).staging⟩⟩
      obtain ⟨before, -, rfl⟩ := map_eq_some_iff.mp found
      have none_ := eq_of_mem_replicate (rowAt_mem held)
      omega
    · rw [same]
      have stamp := not_not.mp current
      refine ⟨⟨⟨⟨good.layout, signature, good.ticket (by rw [stamp]; exact some_ne_none _),
        good.exact_ _ handle stamp table fresh rfl⟩, table, stamp⟩, refl⟩,
        fun quiet => ⟨(whole quiet).tags there, (whole quiet).staging⟩⟩

/-! ### One read -/

/-- What a read needs in order to return: rows of the table, room for one of them, and memory. -/
structure Readable (rowBytes : Sig → ℕ) (budget : ℕ) (device : Device) (refused : Buffer → Bool)
    (weight : Weight Sig Row) (ids : List ℤ) : Prop where
  within : Within ids weight.rows.length
  room : 1 ≤ capacity rowBytes budget weight
  sized : device = .cuda → rowBytes weight.signature ≠ 0
  memory : ∀ buffer, refused buffer = false

/-- **One read**: it returns the rows of the table in a new buffer, or it fails, and then only if an
operation failed, or something it needs or a buffer of the cache is missing. -/
theorem read_ok (refused : Buffer → Bool) (device : Device) (ids : List ℤ)
    (good : Good rowBytes budget weights stale start) (fresh : handle ∉ stale) :
    Triple (Readable rowBytes budget device refused (weights handle) ids ∧ start.cache.Whole)
      (fun machine => machine = start) (read rowBytes budget device refused handle (weights handle) ids)
      (fun output machine => (Good rowBytes budget weights stale machine ∧ Kept start machine) ∧
        (start.next ≤ output ∧ output < machine.next ∧ output ∉ machine.cache.owned) ∧
        ∃ rows, indexSelect (weights handle).rows ids = some rows ∧ machine.heap output = rows.map some)
      (fun machine => Good rowBytes budget weights stale machine ∧ Kept start machine) := by
  refine (validateWeight_ok good fresh (·.1.room) (·.1.memory) And.right).bind fun _ =>
    pointwise fun middle known => ?_
  obtain ⟨⟨now, kept⟩, complete⟩ := known
  refine ite (fun outside => ?_) fun inside => ?_
  · refine fail fun machine same => ⟨by rw [same]; exact ⟨now.good, kept⟩, fun readable => ?_⟩
    obtain ⟨id, mem, wrong⟩ := outside
    have := readable.1.within id mem
    omega
  · have within : Within ids (weights handle).rows.length := by
      intro id mem
      by_contra wrong
      exact inside ⟨id, mem, by omega⟩
    have failed : ∀ machine, Broken rowBytes budget middle machine →
        Good rowBytes budget weights stale (forget machine) ∧ Kept start (forget machine) := by
      intro machine broken
      obtain ⟨good', kept'⟩ := forget_ok now broken
      exact ⟨good', kept.trans kept'⟩
    refine (attempt (readRows_ok (·.1.memory _) now.toReady within complete (·.1.sized)) failed).imp ?_
    rintro output machine ⟨cache', free, at_⟩
    have current : Current rowBytes budget handle (weights handle) machine := by
      refine ⟨⟨at_.layout, at_.signature, fun _ _ => ?_, ?_⟩, at_.table.trans now.table,
        at_.stamp.trans now.stamp⟩
      · rw [at_.fields]
        exact free
      · rw [at_.fields]
        exact at_.exact_
    exact ⟨⟨current.good, kept.trans at_.kept⟩, ⟨kept.next.trans at_.fresh, at_.known, at_.foreign⟩,
      at_.rows within⟩

/-! ### Runs -/

/-- The tables, the cache, and the outputs that reads have returned. `stale` tables have changed
silently since the last `clear`. -/
structure CacheWorld (Sig Row : Type) where
  weights : ℕ → Weight Sig Row
  stale : Set ℕ
  machine : Machine Sig Row
  returned : List (ℕ × List (Option Row))

def CacheWorld.afterRead (world : CacheWorld Sig Row) (result : Except String ℕ × Faults × Machine Sig Row) :
    CacheWorld Sig Row where
  weights := world.weights
  stale := world.stale
  machine := result.2.2
  returned :=
    match result.1 with
    | .ok output => (output, result.2.2.heap output) :: world.returned
    | .error _ => world.returned

/-- The world after `clear`. -/
def CacheWorld.afterClear (world : CacheWorld Sig Row) :
    Except String Unit × Faults × Machine Sig Row → CacheWorld Sig Row
  | (.ok (), _, machine) => { world with machine := machine, stale := ∅ }
  | (.error _, _, machine) => { world with machine := machine }

def CacheWorld.put (world : CacheWorld Sig Row) (handle : ℕ) (weight : Weight Sig Row) :
    CacheWorld Sig Row :=
  { world with weights := Function.update world.weights handle weight }

/-- Which reads of a cache a run makes, by what they find no memory for. -/
abbrev Reads (Sig : Type) := (Buffer → Bool) → Cache Sig → ℕ → Sig → Prop

/-- The steps of a cache and of the tables. -/
inductive CacheStep (rowBytes : Sig → ℕ) (budget : ℕ) (device : Device) (reads : Reads Sig) :
    CacheWorld Sig Row → CacheWorld Sig Row → Prop
  | read (world : CacheWorld Sig Row) (handle : ℕ) (ids : List ℤ) (faults : Faults) (refused : Buffer → Bool)
      (fresh : handle ∉ world.stale)
      (admitted : reads refused world.machine.cache handle (world.weights handle).signature) :
      CacheStep rowBytes budget device reads world (world.afterRead
        (read rowBytes budget device refused handle (world.weights handle) ids faults world.machine))
  | clear (world : CacheWorld Sig Row) (faults : Faults) :
      CacheStep rowBytes budget device reads world (world.afterClear (clear faults world.machine))
  | update (world : CacheWorld Sig Row) (handle : ℕ) (weight : Weight Sig Row)
      (newer : (world.weights handle).version < weight.version) :
      CacheStep rowBytes budget device reads world (world.put handle weight)
  | silent (world : CacheWorld Sig Row) (handle : ℕ) (weight : Weight Sig Row)
      (same : (world.weights handle).version = weight.version) :
      CacheStep rowBytes budget device reads world
        { world.put handle weight with stale := insert handle world.stale }

structure CacheWorld.Sound (rowBytes : Sig → ℕ) (budget : ℕ) (world : CacheWorld Sig Row) : Prop where
  good : Good rowBytes budget world.weights world.stale world.machine
  returned : ∀ output cells, (output, cells) ∈ world.returned → output < world.machine.next ∧
    output ∉ world.machine.cache.owned ∧ world.machine.heap output = cells

variable {device : Device} {reads : Reads Sig} {world next : CacheWorld Sig Row}

omit [DecidableEq Sig] in
theorem CacheWorld.Sound.kept (sound : world.Sound rowBytes budget) (kept : Kept world.machine machine) :
    ∀ output cells, (output, cells) ∈ world.returned → output < machine.next ∧
      output ∉ machine.cache.owned ∧ machine.heap output = cells := by
  intro output cells mem
  obtain ⟨known, foreign, same⟩ := sound.returned output cells mem
  refine ⟨known.trans_le kept.next, fun own => ?_, (kept.frame output known foreign).trans same⟩
  rcases kept.owned output own with old | new
  · exact foreign old
  · omega

omit [DecidableEq Sig] in
/-- A table has changed: the cache does not know, or it is not asked. -/
theorem Good.update {stale' : Set ℕ} (good : Good rowBytes budget weights stale machine)
    (later : (weights handle).version ≤ weight.version) (more : ∀ other, other ∉ stale' → other ∉ stale)
    (hidden : handle ∉ stale' → (weights handle).version < weight.version) :
    Good rowBytes budget (Function.update weights handle weight) stale' machine := by
  refine ⟨good.layout, good.ticket, fun version other found there => ?_,
    fun version other found there fresh same => ?_⟩
  · have before := good.current version other found there
    by_cases here : other = handle
    · subst here
      rw [Function.update_self]
      exact before.trans later
    · rw [Function.update_of_ne here]
      exact before
  · by_cases here : other = handle
    · subst here
      rw [Function.update_self] at same
      have before := good.current version other found there
      have newer := hidden fresh
      omega
    · rw [Function.update_of_ne here] at same ⊢
      exact good.exact_ version other found there (more other fresh) same

/-- Every step keeps the cache good and the outputs as they are. -/
theorem CacheStep.sound (step : CacheStep rowBytes budget device reads world next)
    (sound : world.Sound rowBytes budget) : next.Sound rowBytes budget := by
  cases step with
  | read handle ids faults refused fresh =>
    have ran := read_ok refused device ids sound.good fresh faults world.machine rfl
    rcases called : Engram.read rowBytes budget device refused handle (world.weights handle) ids faults world.machine
      with ⟨error | output, left, machine⟩
    · rw [called] at ran
      exact ⟨ran.1.1, sound.kept ran.1.2⟩
    · rw [called] at ran
      obtain ⟨⟨good, kept⟩, ⟨-, known, foreign⟩, -⟩ := ran.1
      refine ⟨good, fun other cells mem => ?_⟩
      rcases mem_cons.mp mem with same | mem
      · cases same
        exact ⟨known, foreign, rfl⟩
      · exact sound.kept kept other cells mem
  | clear faults =>
    have judged : Triple True _ Engram.clear _ _ := clear_ok sound.good
    have ran := judged faults world.machine rfl
    rcases called : Engram.clear faults world.machine with ⟨error | ⟨⟩, left, machine⟩
    · rw [called] at ran
      exact ⟨ran.1.1, sound.kept ran.1.2⟩
    · rw [called] at ran
      obtain rfl := ran.1
      exact ⟨Good.forgotten sound.good.layout.cleared rfl, sound.kept (put fun _ own => own)⟩
  | update handle weight newer =>
    exact ⟨sound.good.update newer.le (fun _ fresh => fresh) fun _ => newer, sound.returned⟩
  | silent handle weight same =>
    refine ⟨sound.good.update same.le (fun other fresh stale => fresh (Set.mem_insert_of_mem _ stale))
      fun fresh => ?_, sound.returned⟩
    exact absurd (Set.mem_insert handle _) fresh

/-- The first world: nothing was cached or returned. -/
def CacheWorld.first (weights : ℕ → Weight Sig Row) : CacheWorld Sig Row :=
  ⟨weights, ∅, ⟨fun _ => [], 0, init⟩, []⟩

theorem CacheWorld.sound (reached : Relation.ReflTransGen (CacheStep rowBytes budget device reads)
    (CacheWorld.first weights) world) : world.Sound rowBytes budget := by
  induction reached with
  | refl => exact ⟨Good.init, nofun⟩
  | tail _ step known => exact step.sound known

/-- No buffer is missing in a run in which each read can make what it has to make. -/
theorem CacheWorld.whole (spared : ∀ refused cache handle signature, reads refused cache handle signature →
      Spared device refused cache handle signature)
    (reached : Relation.ReflTransGen (CacheStep rowBytes budget device reads) (CacheWorld.first weights) world) :
    world.machine.cache.Whole := by
  induction reached with
  | refl => exact ⟨fun there => absurd rfl there, fun there => absurd rfl there⟩
  | @tail world next _ step whole =>
    cases step with
    | read handle ids faults refused fresh admitted =>
      have ran := read_whole rowBytes budget ids whole (spared _ _ _ _ admitted) faults world.machine rfl
      unfold afterRead
      split at ran
      · rename_i called
        rw [called]
        exact ran.1
      · rename_i called
        rw [called]
        exact ran.1
    | clear faults =>
      have judged : Triple False _ Engram.clear _ fun machine => machine.cache.Whole :=
        clear_rule fun _ _ => ⟨whole.tags, whole.staging⟩
      have ran := judged faults world.machine rfl
      rcases called : Engram.clear faults world.machine with ⟨error | ⟨⟩, left, machine⟩
      · rw [called] at ran
        exact ran.1
      · rw [called] at ran
        obtain rfl := ran.1
        exact ⟨fun there none_ => whole.tags there (map_eq_none_iff.mp none_), whole.staging⟩
    | update | silent => exact whole

/-- **The rows of the cache**, after any reads, clears, updates and failures: a read that returns gives
the rows of the table as it is, and the rows that were returned before are never changed. If every earlier
read had memory for what it had to make, a read fails only if an operation of its own fails or something it
needs is missing. -/
theorem row_cache (rowBytes : Sig → ℕ) (budget : ℕ) (device : Device) (reads : Reads Sig)
    (weights : ℕ → Weight Sig Row) (world : CacheWorld Sig Row)
    (reached : Relation.ReflTransGen (CacheStep rowBytes budget device reads) (CacheWorld.first weights) world) :
    (∀ handle ids faults refused, handle ∉ world.stale →
      match read rowBytes budget device refused handle (world.weights handle) ids faults world.machine with
      | (.ok output, _, machine) => ∃ rows, indexSelect (world.weights handle).rows ids = some rows ∧
          machine.heap output = rows.map some
      | (.error _, _, _) =>
        (∀ refused cache handle signature, reads refused cache handle signature →
          Spared device refused cache handle signature) →
        faults ≠ none ∨ ¬ Readable rowBytes budget device refused (world.weights handle) ids) ∧
    ∀ output cells, (output, cells) ∈ world.returned → world.machine.heap output = cells := by
  have sound := CacheWorld.sound reached
  refine ⟨fun handle ids faults refused fresh => ?_, fun output cells member =>
    (sound.returned output cells member).2.2⟩
  have ran := read_ok refused device ids sound.good fresh faults world.machine rfl
  rcases called : read rowBytes budget device refused handle (world.weights handle) ids faults world.machine
    with ⟨error | output, left, machine⟩
  · rw [called] at ran
    intro spared
    by_cases readable : Readable rowBytes budget device refused (world.weights handle) ids
    · exact Or.inl (ran.2 ⟨readable, CacheWorld.whole spared reached⟩)
    · exact Or.inr readable
  · rw [called] at ran
    exact ran.1.2.2

def sampleWeight (last : ℕ) (version : ℕ) : Weight Unit ℕ := ⟨[10, 20, last], (), version⟩

def plenty : Buffer → Bool := fun _ => false

theorem spared_plenty {cache : Cache Unit} {handle : ℕ} : Spared .cuda plenty cache handle () :=
  ⟨fun _ _ => ⟨rfl, rfl⟩, fun _ _ => rfl⟩

theorem sample_readable {weight : Weight Unit ℕ} (length : weight.rows.length = 3) {ids : List ℤ} (within : Within ids 3) :
    Readable (fun _ => 8) 16 .cuda plenty weight ids := by
  refine ⟨by rw [length]; exact within, ?_, fun _ => by decide, fun _ => rfl⟩
  unfold capacity
  rw [length]
  show 1 ≤ min 3 (16 / (8 + 8))
  decide

theorem sample_read : ∃ second : CacheWorld Unit ℕ,
    CacheStep (fun _ => 8) 16 .cuda (Spared .cuda) (CacheWorld.first fun _ => sampleWeight 30 1) second ∧
      (second.weights 0).version = 1 ∧ second.stale = ∅ ∧ second.returned.length = 1 :=
  ⟨_, CacheStep.read _ 0 [0, 2] none plenty (Set.notMem_empty 0) spared_plenty, rfl, rfl, by decide +kernel⟩

/-- With one slot and a staging buffer of two rows, all requested rows are those after an update. -/
theorem colliding_rows_read : ∃ (world : CacheWorld Unit ℕ) (output : ℕ) (left : Faults)
    (machine : Machine Unit ℕ), world.returned.length = 1 ∧
      read (fun _ => 8) 16 .cuda plenty 0 (world.weights 0) [2, 0, 2, 1] none world.machine
        = (.ok output, left, machine) ∧
      machine.heap output = [some 35, some 10, some 35, some 20] := by
  obtain ⟨second, one, version, stale, returned⟩ := sample_read
  let third := second.put 0 (sampleWeight 35 2)
  have two : CacheStep (fun _ => 8) 16 .cuda (Spared .cuda) second third :=
    CacheStep.update second 0 (sampleWeight 35 2) (by rw [version]; decide)
  have fresh : 0 ∉ third.stale := by
    show 0 ∉ second.stale
    rw [stale]
    exact Set.notMem_empty 0
  have weight : third.weights 0 = sampleWeight 35 2 := by
    show Function.update second.weights 0 (sampleWeight 35 2) 0 = _
    rw [Function.update_self]
  have exact_ := (row_cache (fun _ => 8) 16 .cuda (Spared .cuda) (fun _ => sampleWeight 30 1) third
    ((Relation.ReflTransGen.single one).tail two)).1 0 [2, 0, 2, 1] none plenty fresh
  rw [weight] at exact_
  rcases called : read (fun _ => 8) 16 .cuda plenty 0 (sampleWeight 35 2) [2, 0, 2, 1] none third.machine
    with ⟨error | output, left, machine⟩
  · rw [called] at exact_
    have wrong := exact_ fun _ _ _ _ => id
    exact absurd (sample_readable rfl fun id member => by revert id; decide) (wrong.resolve_left fun wrong => wrong rfl)
  · rw [called] at exact_
    obtain ⟨rows, selected, same⟩ := exact_
    cases selected
    exact ⟨third, output, left, machine, returned, by rw [weight]; exact called, same⟩

def noStaging : Buffer → Bool
  | .staging => true
  | .values | .tags => false

/-- A read has no memory for its staging buffer; the next one has all it needs, and fails. -/
theorem missing_staging_fails : ¬ ∀ world : CacheWorld Unit ℕ,
    Relation.ReflTransGen (CacheStep (fun _ => 8) 16 .cuda fun _ _ _ _ => True)
      (CacheWorld.first fun _ => sampleWeight 30 1) world → ∀ ids, 0 ∉ world.stale →
        Readable (fun _ => 8) 16 .cuda plenty (world.weights 0) ids → ∃ output left machine,
          read (fun _ => 8) 16 .cuda plenty 0 (world.weights 0) ids none world.machine = (.ok output, left, machine) := by
  intro all
  obtain ⟨output, left, machine, same⟩ := all _ (Relation.ReflTransGen.single (CacheStep.read _ 0 [0] none noStaging
    (Set.notMem_empty 0) trivial)) [1] (Set.notMem_empty 0) (sample_readable rfl fun id member => by revert id; decide)
  have failed := congrArg (fun result => result.1.isOk) same
  cases failed

end TinyDSV41.Engram
