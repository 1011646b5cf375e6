/-
**The row cache of an Engram table.**

A direct-mapped cache of rows on a device: the row with some index has one slot, and the tag of the slot
says which row is there. On the host the missing rows are read at once; for a device they pass through
two staging buffers, chunk by chunk. Streams, events and counters are left out; waiting for an event is
an operation that may fail.

* `read`, `clear` — the operations, with every operation of theirs that may fail. `refused` says which
  buffers of the cache there is no memory for.
-/

import TinyDSV41.Lib.Faults
import TinyDSV41.Lib.Rows
import Mathlib.Algebra.Group.Nat.Defs

namespace TinyDSV41.Engram

open Lib

/-! ### Machines -/

/-- A table in memory. `signature` stands for its addresses, shape, strides, type and device. -/
structure Weight (Sig Row : Type) where
  rows : List Row
  signature : Sig
  version : ℕ

/-- One row transfer that is on its way. -/
structure Ticket (Sig : Type) where
  generation : ℕ
  weight : ℕ
  signature : Sig
  version : ℕ
  count : ℕ
deriving DecidableEq

/-- The fields of `_RowCache`. Buffers are addresses; `weight` is the table that `_weight` refers to. -/
structure Cache (Sig : Type) where
  values : Option ℕ
  tags : Option (List ℤ)
  signature : Option Sig
  version : Option ℕ
  weight : Option ℕ
  generation : ℕ
  ticket : Option (Ticket Sig)
  pinned : Option ℕ
  staging : Option ℕ

/-- The cache, and the buffers by address. A cell is `none` as long as nothing was written to it. -/
structure Machine (Sig Row : Type) where
  heap : ℕ → List (Option Row)
  next : ℕ
  cache : Cache Sig

inductive Device
  | cpu
  | cuda
deriving DecidableEq

/-- The buffers that a read makes once it has let go of what they replace, or has their partner. -/
inductive Buffer
  | values
  | tags
  | staging

variable {Sig Row : Type}

def Cache.owned (cache : Cache Sig) : List ℕ :=
  cache.values.toList ++ (cache.pinned.toList ++ cache.staging.toList)

/-- `_RowCache.__init__` -/
def Cache.init : Cache Sig := ⟨none, none, none, none, none, 0, none, none, none⟩

def Machine.write (machine : Machine Sig Row) (address : ℕ) (buffer : List (Option Row)) :
    Machine Sig Row :=
  { machine with heap := Function.update machine.heap address buffer }

def Machine.allocate (machine : Machine Sig Row) (length : ℕ) : Machine Sig Row :=
  { machine.write machine.next (List.replicate length none) with next := machine.next + 1 }

def Machine.put (machine : Machine Sig Row) (update : Cache Sig → Cache Sig) : Machine Sig Row :=
  { machine with cache := update machine.cache }

/-! ### Operations -/

/-- `torch.empty` -/
def empty (length : ℕ) : Prog (Machine Sig Row) ℕ :=
  .operate fun machine => some (machine.next, machine.allocate length)

/-- A buffer of the cache, if there is memory for it. -/
def reserve (refused : Bool) (length : ℕ) : Prog (Machine Sig Row) ℕ := do
  .when (refused = true) (.fail "out of memory")
  let address ← .look (·.next)
  .change (·.allocate length)
  pure address

/-- `index_select` of a buffer. -/
def select (address : ℕ) (ids : List ℤ) : Prog (Machine Sig Row) (List (Option Row)) :=
  .operate fun machine => (indexSelect (machine.heap address) ids).map (·, machine)

/-- `index_copy_` into a buffer. -/
def copyInto (address : ℕ) (edits : List (ℤ × Option Row)) : Prog (Machine Sig Row) Unit :=
  .operate fun machine => (indexCopy (machine.heap address) edits).map ((), machine.write address ·)

/-- An operation on tensors that are no buffers of the cache. -/
def compute {Value : Type} (value : Option Value) : Prog (Machine Sig Row) Value :=
  .operate fun machine => value.map (·, machine)

def tensor {Value : Type} (field : Cache Sig → Option Value) : Prog (Machine Sig Row) Value :=
  .operate fun machine => (field machine.cache).map (·, machine)

def assign (update : Cache Sig → Cache Sig) : Prog (Machine Sig Row) Unit := .change (·.put update)

def field {Value : Type} (view : Cache Sig → Value) : Prog (Machine Sig Row) Value :=
  .look fun machine => view machine.cache

def noTags (tags : List ℤ) : List ℤ := List.replicate tags.length (-1)

/-- `clear`; the first operation is `wait`. -/
def clear : Prog (Machine Sig Row) Unit := do
  assign fun cache => { cache with generation := cache.generation + 1 }
  .operate fun machine => some ((), machine.put fun cache => { cache with ticket := none })
  .operate fun machine => some ((), machine.put fun cache => { cache with tags := cache.tags.map noTags })
  assign fun cache => { cache with version := none }

variable (rowBytes : Sig → ℕ) (budget : ℕ) (device : Device) (refused : Buffer → Bool)

/-- `_STAGING_BYTES` -/
def stagingBytes : ℕ := 4 * 2 ^ 20

def capacity (weight : Weight Sig Row) : ℕ :=
  min weight.rows.length (budget / (rowBytes weight.signature + 8))

def stagingCapacity (signature : Sig) : ℕ := max 1 (min budget stagingBytes / rowBytes signature)

/-- The storage of another table replaces the one that was there. -/
def replace (handle : ℕ) (weight : Weight Sig Row) : Prog (Machine Sig Row) Unit := do
  clear
  assign fun cache => { cache with values := none, tags := none, pinned := none, staging := none }
  let values ← reserve (refused .values) (capacity rowBytes budget weight)
  assign fun cache => { cache with values := some values }
  .when (refused .tags = true) (.fail "out of memory")
  assign fun cache => { cache with
    tags := some (List.replicate (capacity rowBytes budget weight) (-1)), weight := some handle
    signature := some weight.signature, version := some weight.version }

/-- `_validate` -/
def validateWeight [DecidableEq Sig] (handle : ℕ) (weight : Weight Sig Row) : Prog (Machine Sig Row) Unit := do
  let cache ← field id
  if cache.weight ≠ some handle ∨ cache.signature ≠ some weight.signature then
    if capacity rowBytes budget weight < 1 then
      .fail "Engram cache budget must hold one complete row and its int64 tag"
    else replace rowBytes budget refused handle weight
  else
    .when (cache.version ≠ some weight.version) do
      clear
      assign fun cache => { cache with version := some weight.version }

/-- The staging buffers are made when they are first used. -/
def prepare (weight : Weight Sig Row) : Prog (Machine Sig Row) Unit := do
  let pinned ← field (·.pinned)
  .when (pinned = none) do
    let pinned ← empty (stagingCapacity rowBytes budget weight.signature)
    assign fun cache => { cache with pinned := some pinned }
    let staging ← reserve (refused .staging) (stagingCapacity rowBytes budget weight.signature)
    assign fun cache => { cache with staging := some staging }

/-- Rows of the table pass through both staging buffers. -/
def transfer (weight : Weight Sig Row) (ids : List ℤ) : Prog (Machine Sig Row) Unit := do
  let pinned ← tensor (·.pinned)
  let rows ← compute (indexSelect (weight.rows.map some) ids)
  copyInto pinned ((arange ids.length).zip rows)
  let staged ← select pinned (arange ids.length)
  let staging ← tensor (·.staging)
  copyInto staging ((arange ids.length).zip staged)

/-- `_begin_transfer` -/
def beginTransfer (handle : ℕ) (weight : Weight Sig Row) (ids : List ℤ) :
    Prog (Machine Sig Row) (Ticket Sig) := do
  let ticket ← field (·.ticket)
  if ticket ≠ none then .fail "Engram allows only one outstanding row transfer"
  else do
    prepare rowBytes budget refused weight
    let pinned ← tensor (·.pinned)
    let size ← .look fun machine => (machine.heap pinned).length
    if size < ids.length then .fail "Engram transfer exceeds staging capacity"
    else do
      transfer weight ids
      let generation ← field (·.generation)
      let ticket : Ticket Sig := ⟨generation, handle, weight.signature, weight.version, ids.length⟩
      assign fun cache => { cache with ticket := some ticket }
      pure ticket

/-- `_consume_transfer` -/
def consumeTransfer [DecidableEq Sig] (handle : ℕ) (weight : Weight Sig Row) (ticket : Ticket Sig) :
    Prog (Machine Sig Row) (Option (List (Option Row))) := do
  let cache ← field id
  if cache.ticket ≠ some ticket ∨ ticket.generation ≠ cache.generation ∨ ticket.weight ≠ handle ∨
      ticket.signature ≠ weight.signature ∨ ticket.version ≠ weight.version then do
    assign fun cache => { cache with ticket := if cache.ticket = some ticket then none else cache.ticket }
    pure none
  else do
    let staging ← tensor (·.staging)
    let rows ← select staging (arange ticket.count)
    pure (some rows)

/-- `_finish_transfer` -/
def finishTransfer (machine : Machine Sig Row) : Machine Sig Row :=
  machine.put fun cache => { cache with ticket := none }

/-- What `_row_plan` decides: where rows go in the output, and which rows go to which slots. -/
structure Plan where
  positions : List ℤ
  inverse : List ℤ
  slots : List ℤ
  chosen : List ℤ
  ids : List ℤ

/-- `_row_plan` -/
def rowPlan (tags : ℕ) (positions missing inverse : List ℤ) : Option Plan :=
  let slots := missing.map (· % (tags : ℤ))
  match scatterMax (List.replicate (unique slots).length (-1))
      ((inverseOf slots).zip (arange missing.length)) with
  | none => none
  | some chosen =>
    match indexSelect missing chosen with
    | none => none
    | some ids => some ⟨positions, inverse, unique slots, chosen, ids⟩

/-- `_install_rows` -/
def installRows (output : ℕ) (plan : Plan) (rows : List (Option Row)) : Prog (Machine Sig Row) Unit := do
  let taken ← compute (indexSelect rows plan.inverse)
  copyInto output (plan.positions.zip taken)
  let chosen ← compute (indexSelect rows plan.chosen)
  let values ← tensor (·.values)
  copyInto values (plan.slots.zip chosen)
  let tags ← tensor (·.tags)
  let tags ← compute (indexCopy tags (plan.slots.zip plan.ids))
  assign fun cache => { cache with tags := some tags }

def readHits (output : ℕ) (slots hits : List ℤ) : Prog (Machine Sig Row) Unit := do
  let values ← tensor (·.values)
  let slots ← compute (indexSelect slots hits)
  let rows ← select values slots
  copyInto output (hits.zip rows)

/-- The positions of a chunk: where rows go, and where they are among the missing ones. -/
def inChunk (pairs : List (ℤ × ℤ)) (start length : ℕ) : List (ℤ × ℤ) :=
  pairs.filter fun pair => decide ((start : ℤ) ≤ pair.2 ∧ pair.2 < (start : ℤ) + length)

/-- One chunk of missing rows. A pair is a position and where its row is among the missing ones. -/
def readChunk [DecidableEq Sig] (handle : ℕ) (weight : Weight Sig Row) (output : ℕ) (slots hits : List ℤ)
    (pairs : List (ℤ × ℤ)) (start : ℕ) (chunk : List ℤ) : Prog (Machine Sig Row) Unit := do
  let ticket ← beginTransfer rowBytes budget refused handle weight chunk
  .when (start = 0 ∧ hits ≠ []) (readHits output slots hits)
  let selected := inChunk pairs start chunk.length
  let tags ← tensor (·.tags)
  let plan ← compute (rowPlan tags.length (selected.map Prod.fst) chunk (selected.map (·.2 - start)))
  let rows ← consumeTransfer handle weight ticket
  match rows with
  | none => .fail "Engram changed during lookup; retry with a fresh forward"
  | some rows => .ensure (installRows output plan rows) finishTransfer

def readChunks [DecidableEq Sig] (handle : ℕ) (weight : Weight Sig Row) (output : ℕ) (slots hits : List ℤ)
    (pairs : List (ℤ × ℤ)) : ℕ → List (List ℤ) → Prog (Machine Sig Row) Unit
  | _, [] => pure ()
  | start, chunk :: rest => do
      readChunk rowBytes budget refused handle weight output slots hits pairs start chunk
      readChunks handle weight output slots hits pairs (start + chunk.length) rest

def readMisses [DecidableEq Sig] (handle : ℕ) (weight : Weight Sig Row) (output : ℕ) (ids slots hits misses : List ℤ) :
    Prog (Machine Sig Row) Unit := do
  let missed ← compute (indexSelect ids misses)
  if device = .cpu then do
    let rows ← compute (indexSelect (weight.rows.map some) (unique missed))
    let tags ← tensor (·.tags)
    let plan ← compute (rowPlan tags.length misses (unique missed) (inverseOf missed))
    installRows output plan rows
  else if rowBytes weight.signature = 0 then .fail "integer division or modulo by zero"
  else
    readChunks rowBytes budget refused handle weight output slots hits (misses.zip (inverseOf missed)) 0
      (split (stagingCapacity rowBytes budget weight.signature) (unique missed))

def positions (ids found : List ℤ) (hit : Bool) : List ℤ :=
  ((arange ids.length).zip (ids.zip found)).filterMap fun entry =>
    if decide (entry.2.1 = entry.2.2) = hit then some entry.1 else none

/-- `read`, within `try`. -/
def readRows [DecidableEq Sig] (handle : ℕ) (weight : Weight Sig Row) (ids : List ℤ) : Prog (Machine Sig Row) ℕ := do
  let output ← empty ids.length
  let tags ← tensor (·.tags)
  let slots := ids.map (· % (tags.length : ℤ))
  let found ← compute (indexSelect tags slots)
  let hits := positions ids found true
  let misses := positions ids found false
  .when (hits ≠ [] ∧ (misses = [] ∨ device = .cpu)) (readHits output slots hits)
  .when (misses ≠ []) (readMisses rowBytes budget device refused handle weight output ids slots hits misses)
  pure output

/-- `except Exception`; without tags the handler raises, too. -/
def forget (machine : Machine Sig Row) : Machine Sig Row :=
  match machine.cache.tags with
  | none => machine
  | some tags => machine.put fun cache => { cache with tags := some (noTags tags), version := none }

/-- `read` -/
def read [DecidableEq Sig] (handle : ℕ) (weight : Weight Sig Row) (ids : List ℤ) : Prog (Machine Sig Row) ℕ := do
  validateWeight rowBytes budget refused handle weight
  if ∃ id ∈ ids, id < 0 ∨ (weight.rows.length : ℤ) ≤ id then
    .fail "Engram cache row is outside its owner's range"
  else .attempt (readRows rowBytes budget device refused handle weight ids) forget

end TinyDSV41.Engram
