/-
**The buffers that a read leaves behind.**

A read lets go of the storage of another table before it makes its own, and keeps a pinned buffer that has
no partner yet. If there is no memory for what is to follow, the cache stays without it.

* `Cache.Whole` — no buffer is missing.
* `Spared` — a read that can make what it has to make.
* `read_whole` — wherever it ends, such a read leaves no buffer missing.
-/

import TinyDSV41.Engram.RowCacheExact

namespace TinyDSV41.Engram

open List Lib Triple
open Option (map_eq_some_iff map_eq_none_iff some_ne_none)

variable {Sig Row Value Other : Type}

/-- No buffer is missing: the storage of a table has tags, and a pinned buffer its partner. -/
structure Cache.Whole (cache : Cache Sig) : Prop where
  tags : cache.weight ≠ none → cache.tags ≠ none
  staging : cache.pinned ≠ none → cache.staging ≠ none

/-- The storage of another table is to be replaced. -/
def Cache.Replaced (cache : Cache Sig) (handle : ℕ) (signature : Sig) : Prop :=
  cache.weight ≠ some handle ∨ cache.signature ≠ some signature

/-- There is memory for what replaces the storage of another table, and for a staging buffer. -/
structure Spared (device : Device) (refused : Buffer → Bool) (cache : Cache Sig) (handle : ℕ) (signature : Sig) :
    Prop where
  storage : cache.Replaced handle signature → cache.weight ≠ none → refused .values = false ∧ refused .tags = false
  staging : device = .cuda → cache.Replaced handle signature ∨ cache.pinned = none → refused .staging = false

/-! ### Rules -/

section Known

variable {calm : Prop} {start : Machine Sig Row} {after : Other → Machine Sig Row → Prop}
  {failed : Machine Sig Row → Prop} {next : Unit → Prog (Machine Sig Row) Other} {update : Cache Sig → Cache Sig}

theorem assign_bind (later : Triple calm (fun machine => machine = start.put update) (next ()) after failed) :
    Triple calm (fun machine => machine = start) (assign update >>= next) after failed := by
  have assigned : Triple calm (fun machine => machine = start) (assign update)
      (fun _ machine => machine = start.put update) failed :=
    change fun machine same => by rw [same]
  exact assigned.bind fun _ => later

theorem operatePut_bind (raised : failed start)
    (later : Triple calm (fun machine => machine = start.put update) (next ()) after failed) :
    Triple calm (fun machine => machine = start)
      ((.operate fun machine => some ((), machine.put update)) >>= next) after failed := by
  have operated : Triple calm (fun machine => machine = start)
      (.operate fun machine => some ((), machine.put update))
      (fun _ machine => machine = start.put update) failed := by
    refine operate fun machine same => ⟨same ▸ raised, fun _ => ⟨_, rfl⟩, fun _ next there => ?_⟩
    cases there
    rw [same]
  exact operated.bind fun _ => later

/-- The cache after `clear`. -/
def Cache.cleared (cache : Cache Sig) : Cache Sig :=
  { cache with
    generation := cache.generation + 1
    ticket := none
    tags := cache.tags.map noTags
    version := none }

/-- `clear`, step by step. -/
theorem clear_rule (raised : ∀ ticket, ticket = start.cache.ticket ∨ ticket = none → failed (start.put fun cache =>
      { cache with generation := cache.generation + 1, ticket := ticket })) :
    Triple calm (fun machine => machine = start) clear (fun _ machine => machine = start.put Cache.cleared) failed := by
  refine assign_bind (operatePut_bind (raised _ (Or.inl rfl)) (operatePut_bind (raised _ (Or.inr rfl)) ?_))
  refine change fun machine same => ?_
  rw [same]
  rfl

end Known

/-- Wherever it ends, a program keeps what holds of the cache. -/
abbrev Steady (holds : Cache Sig → Prop) (program : Prog (Machine Sig Row) Value) : Prop :=
  Triple False (fun machine => holds machine.cache) program (fun _ machine => holds machine.cache)
    fun machine => holds machine.cache

section Steady

variable {holds : Cache Sig → Prop} {ids : List ℤ} {address : ℕ}

theorem steady_map {found : Machine Sig Row → Option Other}
    {next : Machine Sig Row → Other → Value × Machine Sig Row}
    (same : ∀ machine value, (next machine value).2.cache = machine.cache) :
    Steady holds (.operate fun machine => (found machine).map (next machine)) := by
  refine operate fun machine known => ⟨known, False.elim, fun value after there => ?_⟩
  obtain ⟨result, -, pair⟩ := map_eq_some_iff.mp there
  have kept := same machine result
  rw [pair] at kept
  rw [kept]
  exact known

theorem steady_compute {value : Option Value} : Steady holds (compute value : Prog (Machine Sig Row) Value) :=
  steady_map fun _ _ => rfl

theorem steady_tensor {view : Cache Sig → Option Value} : Steady holds (tensor view : Prog (Machine Sig Row) Value) :=
  steady_map fun _ _ => rfl

theorem steady_select : Steady holds (select address ids : Prog (Machine Sig Row) _) := steady_map fun _ _ => rfl

theorem steady_copyInto {edits : List (ℤ × Option Row)} : Steady holds (copyInto address edits) :=
  steady_map fun _ _ => rfl

theorem steady_field {view : Cache Sig → Value} : Steady holds (field view : Prog (Machine Sig Row) Value) :=
  look fun _ known => known

theorem steady_assign {update : Cache Sig → Cache Sig} (kept : ∀ cache, holds cache → holds (update cache)) :
    Steady holds (assign update : Prog (Machine Sig Row) Unit) := change fun machine known => kept machine.cache known

theorem steady_fail {error : String} : Steady holds (.fail error : Prog (Machine Sig Row) Value) :=
  fail fun _ known => ⟨known, id⟩

theorem steady_done {value : Value} : Steady holds (pure value : Prog (Machine Sig Row) Value) :=
  Triple.pure fun _ known => known

theorem steady_when {condition : Prop} [Decidable condition] {program : Prog (Machine Sig Row) Unit}
    (steady : Steady holds program) : Steady holds (.when condition program) :=
  when (fun _ => steady) fun _ _ known => known

end Steady

/-! ### One read -/

section Read

variable {rowBytes : Sig → ℕ} {budget : ℕ} {device : Device} {refused : Buffer → Bool} {handle output start : ℕ}
  {weight : Weight Sig Row} {ids slots hits misses chunk : List ℤ} {pairs : List (ℤ × ℤ)}

/-- No buffer is missing, and there is memory for a staging buffer that is not there yet. -/
def Intact (device : Device) (refused : Buffer → Bool) (cache : Cache Sig) : Prop :=
  cache.Whole ∧ (device = .cuda → cache.pinned = none → refused .staging = false)

theorem steady_ticket {ticket : Cache Sig → Option (Ticket Sig)} : Steady (Intact device refused)
    (assign fun cache => { cache with ticket := ticket cache } : Prog (Machine Sig Row) Unit) :=
  steady_assign fun _ intact => ⟨⟨intact.1.tags, intact.1.staging⟩, intact.2⟩

theorem installRows_steady {plan : Plan} {rows : List (Option Row)} :
    Steady (Intact device refused) (installRows output plan rows : Prog (Machine Sig Row) Unit) := by
  refine steady_compute.bind fun _ => steady_copyInto.bind fun _ => steady_compute.bind fun _ => ?_
  refine steady_tensor.bind fun _ => steady_copyInto.bind fun _ => steady_tensor.bind fun _ => ?_
  refine steady_compute.bind fun tags => steady_assign fun cache intact => ?_
  exact ⟨⟨fun _ => some_ne_none tags, intact.1.staging⟩, intact.2⟩

theorem readHits_steady :
    Steady (Intact device refused) (readHits output slots hits : Prog (Machine Sig Row) Unit) :=
  steady_tensor.bind fun _ => steady_compute.bind fun _ => steady_select.bind fun _ => steady_copyInto

/-- The pinned buffer has no partner only while its partner is made. -/
theorem prepare_steady (cuda : device = .cuda) :
    Steady (Intact device refused) (prepare rowBytes budget refused weight) := by
  refine pointwise fun start intact => field_bind (fun machine => congrArg Machine.cache) ?_
  refine when (fun absent => ?_) fun _ machine same => by rw [same]; exact intact
  have room := intact.2 cuda absent
  have made : Triple False (fun machine => machine = start)
      (empty (stagingCapacity rowBytes budget weight.signature))
      (fun _ machine => machine.cache = start.cache) (fun machine => Intact device refused machine.cache) := by
    refine (empty_rule fun machine same => by rw [same]; exact intact).imp ?_
    rintro _ _ ⟨_, rfl, -, rfl⟩
    rfl
  refine made.bind fun pinned => ?_
  have adopted : Triple False (fun machine : Machine Sig Row => machine.cache = start.cache)
      (assign fun cache => { cache with pinned := some pinned })
      (fun _ machine => machine.cache = { start.cache with pinned := some pinned })
      (fun machine => Intact device refused machine.cache) :=
    change fun machine same => congrArg (fun cache : Cache Sig => { cache with pinned := some pinned }) same
  have refuses : refused .staging = true → ∀ machine : Machine Sig Row,
      machine.cache = { start.cache with pinned := some pinned } → Intact device refused machine.cache := by
    intro none_
    rw [room] at none_
    cases none_
  refine adopted.bind fun _ => (reserve_rule refuses False.elim).bind fun staging => change ?_
  rintro _ ⟨earlier, same, -, rfl⟩
  show Intact device refused { earlier.cache with staging := some staging }
  rw [same]
  exact ⟨⟨intact.1.tags, fun _ => some_ne_none staging⟩, fun _ none_ => absurd none_ (some_ne_none pinned)⟩

theorem transfer_steady : Steady (Intact device refused) (transfer weight ids) := by
  refine steady_tensor.bind fun _ => steady_compute.bind fun _ => steady_copyInto.bind fun _ => ?_
  exact steady_select.bind fun _ => steady_tensor.bind fun _ => steady_copyInto

theorem beginTransfer_steady (cuda : device = .cuda) :
    Steady (Intact device refused) (beginTransfer rowBytes budget refused handle weight ids) := by
  refine steady_field.bind fun _ => ite (fun _ => steady_fail) fun _ => (prepare_steady cuda).bind fun _ => ?_
  refine steady_tensor.bind fun pinned => ?_
  have sized : Steady (Intact device refused)
      (Prog.look fun machine : Machine Sig Row => (machine.heap pinned).length) := look fun _ known => known
  refine sized.bind fun _ => ite (fun _ => steady_fail) fun _ => transfer_steady.bind fun _ => ?_
  exact steady_field.bind fun _ => steady_ticket.bind fun _ => steady_done

variable [DecidableEq Sig]

theorem consumeTransfer_steady {ticket : Ticket Sig} :
    Steady (Intact device refused) (consumeTransfer handle weight ticket) := by
  refine steady_field.bind fun _ => ite (fun _ => ?_) fun _ => ?_
  · exact steady_ticket.bind fun _ => steady_done
  · exact steady_tensor.bind fun _ => steady_select.bind fun _ => steady_done

theorem readChunk_steady (cuda : device = .cuda) : Steady (Intact device refused)
    (readChunk rowBytes budget refused handle weight output slots hits pairs start chunk) := by
  refine (beginTransfer_steady cuda).bind fun _ => (steady_when readHits_steady).bind fun _ => ?_
  refine steady_tensor.bind fun _ => steady_compute.bind fun _ => consumeTransfer_steady.bind fun rows => ?_
  cases rows with
  | none => exact steady_fail
  | some rows =>
    exact installRows_steady.ensure (fun _ _ intact => ⟨⟨intact.1.tags, intact.1.staging⟩, intact.2⟩)
      fun _ intact => ⟨⟨intact.1.tags, intact.1.staging⟩, intact.2⟩

theorem readChunks_steady (cuda : device = .cuda) (chunks : List (List ℤ)) : Steady (Intact device refused)
    (readChunks rowBytes budget refused handle weight output slots hits pairs start chunks) := by
  induction chunks generalizing start with
  | nil => exact steady_done
  | cons chunk rest known => exact (readChunk_steady cuda).bind fun _ => known

theorem readMisses_steady : Steady (Intact device refused)
    (readMisses rowBytes budget device refused handle weight output ids slots hits misses) := by
  refine steady_compute.bind fun _ => ite (fun _ => ?_) fun other => ite (fun _ => steady_fail) fun _ => ?_
  · refine steady_compute.bind fun _ => steady_tensor.bind fun _ => ?_
    exact steady_compute.bind fun _ => installRows_steady
  · cases device with
    | cpu => exact absurd rfl other
    | cuda => exact readChunks_steady rfl _

theorem readRows_steady :
    Steady (Intact device refused) (readRows rowBytes budget device refused handle weight ids) := by
  have made : Steady (Intact device refused) (empty ids.length : Prog (Machine Sig Row) ℕ) := by
    refine (empty_rule fun _ known => known).imp ?_
    rintro _ _ ⟨earlier, known, -, rfl⟩
    exact known
  refine made.bind fun _ => steady_tensor.bind fun _ => steady_compute.bind fun _ => ?_
  refine (steady_when readHits_steady).bind fun _ => (steady_when readMisses_steady).bind fun _ => ?_
  exact steady_done

variable {start : Machine Sig Row}

omit [DecidableEq Sig] in
/-- The storage of another table is let go of only where there is memory for its successor. -/
theorem replace_whole (whole : start.cache.Whole) (replaced : start.cache.Replaced handle weight.signature)
    (spared : Spared device refused start.cache handle weight.signature) :
    Triple False (fun machine => machine = start) (replace rowBytes budget refused handle weight)
      (fun _ machine => Intact device refused machine.cache) fun machine => machine.cache.Whole := by
  have unrefused : ∀ cache : Cache Sig, cache.weight = start.cache.weight → cache.pinned = none →
      (refused .values = true ∨ refused .tags = true) → cache.Whole := by
    intro cache table absent refuses
    refine ⟨fun there => ?_, fun there => absurd absent there⟩
    obtain ⟨values, tags⟩ := spared.storage replaced (table ▸ there)
    rw [values, tags] at refuses
    cases refuses with
    | inl none_ | inr none_ => cases none_
  refine (clear_rule fun _ _ => ⟨whole.tags, whole.staging⟩).bind fun _ => assign_bind ?_
  refine (reserve_rule (fun none_ machine same => ?_) False.elim).bind fun values =>
    pointwise fun later known => ?_
  · rw [same]
    exact unrefused _ rfl rfl (Or.inl none_)
  obtain ⟨earlier, rfl, -, rfl⟩ := known
  refine assign_bind ((refuse_rule (fun none_ machine same => ?_) False.elim).bind fun _ => change fun _ same => ?_)
  · rw [same]
    exact unrefused _ rfl rfl (Or.inr none_)
  · rw [same]
    exact ⟨⟨fun _ => some_ne_none _, fun there => absurd rfl there⟩, fun cuda _ => spared.staging cuda (Or.inl replaced)⟩

theorem validateWeight_whole (whole : start.cache.Whole)
    (spared : Spared device refused start.cache handle weight.signature) :
    Triple False (fun machine => machine = start) (validateWeight rowBytes budget refused handle weight)
      (fun _ machine => Intact device refused machine.cache) fun machine => machine.cache.Whole := by
  have room : device = .cuda → start.cache.pinned = none → refused .staging = false :=
    fun cuda absent => spared.staging cuda (Or.inr absent)
  refine field_bind (fun machine => congrArg Machine.cache) ?_
  rw [id_eq]
  refine ite (fun replaced => ite (fun _ => fail fun machine same => ⟨?_, id⟩) fun _ => ?_) fun _ =>
    when (fun _ => ?_) fun _ machine same => ?_
  · rw [same]
    exact whole
  · exact replace_whole whole replaced spared
  · refine (clear_rule fun _ _ => ⟨whole.tags, whole.staging⟩).bind fun _ => change fun machine same => ?_
    rw [same]
    exact ⟨⟨fun there none_ => whole.tags there (map_eq_none_iff.mp none_), whole.staging⟩, room⟩
  · rw [same]
    exact ⟨whole, room⟩

omit [DecidableEq Sig] in
theorem forget_whole {machine : Machine Sig Row} (whole : machine.cache.Whole) : (forget machine).cache.Whole := by
  unfold forget
  split
  · exact whole
  · exact ⟨fun _ => some_ne_none _, whole.staging⟩

variable (rowBytes budget ids)

/-- **No buffer is missing** behind a read that can make what it has to make, wherever the read ends. -/
theorem read_whole (whole : start.cache.Whole)
    (spared : Spared device refused start.cache handle weight.signature) :
    Triple False (fun machine => machine = start) (read rowBytes budget device refused handle weight ids)
      (fun _ machine => machine.cache.Whole) fun machine => machine.cache.Whole := by
  refine (validateWeight_whole whole spared).bind fun _ =>
    ite (fun _ => fail fun _ intact => ⟨intact.1, id⟩) fun _ => ?_
  exact (readRows_steady.weaken (fun _ intact => intact) (fun _ _ intact => intact.1)
    fun _ intact => intact.1).attempt fun _ => forget_whole

end Read

end TinyDSV41.Engram
