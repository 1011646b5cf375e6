/-
**The input cache.**

A bounded cache of generated inputs in two tiers. A consumer that misses generates the entry and
publishes it; a consumer that hits holds a lease on the entry until it releases it or ends. All
operations run under the lock of the cache; an `acquire` gives it up only while it waits for an entry
that another consumer generates, and looks at the cache again when it wakes.

* `Cache.space` — evicts entries without a lease until a reservation fits.
* `Cache.acquire`, `publish`, `release`, `end`, `abort`, `clear` — the operations.
* `cacheSystem` — the runs of a cache; `uuid4` never repeats an identity.

The answers of the clock, of `uuid4` and of the operating system come from outside. Of the metrics there
are the three sums over metadata, which can raise; the others, of which no operation reads anything, are
left out. File descriptors and paths follow the entries and are left out.
-/

import TinyDSV41.Lib.OrderedTable
import TinyDSV41.Lib.Transition

namespace TinyDSV41.Cache

open Lib

/-! ### Entries and consumers -/

inductive Tier
  | ram
  | disk
deriving DecidableEq

/-- The identity of a consumer or of a lease, as `uuid4` makes it. -/
abbrev Token := String

/-- A number of JSON as a sum sees it: an integer, or some float. -/
inductive Number
  | int (value : ℤ)
  | float
deriving DecidableEq

/-- The least magnitude of an integer that `float` raises on. -/
def floatOverflow : ℕ := 2 ^ 1024 - 2 ^ 970

/-- `+`; an integer is made a float before it is added to one. -/
def Number.add : Number → Number → Option Number
  | .int first, .int second => some (.int (first + second))
  | .float, .float => some .float
  | .int value, .float | .float, .int value =>
    if floatOverflow ≤ value.natAbs then none else some .float

/-- What the cache reads of the metadata of a publication: the bytes of its `canonical` text, missing
where that raises, and three numbers, each missing where there is none. -/
structure Metadata where
  canonicalBytes : Option ℕ
  generationSeconds : Option Number
  publicationCopyBytes : Option Number
  publicationCopySeconds : Option Number
deriving DecidableEq

structure Metrics where
  generationSecondsSaved : Number
  publicationCopyBytes : Number
  publicationCopySeconds : Number
deriving DecidableEq

def Metrics.zero : Metrics := ⟨.int 0, .int 0, .int 0⟩

/-- `metrics[…] += metadata[…]`; none where it raises. -/
def Number.sum (total : Number) (value : Option Number) : Option Number := value.bind total.add

/-- `state`, with the metadata of a ready entry. -/
inductive Stage
  | generating
  | ready (metadata : Metadata)
deriving DecidableEq

structure Entry where
  bytes : ℕ
  tier : Tier
  stage : Stage
  producer : Token
  leases : List Token
deriving DecidableEq

def Entry.isReady (entry : Entry) : Bool :=
  match entry.stage with
  | .generating => false
  | .ready _ => true

/-- A consumer: its leases name the keys of their entries. -/
structure Consumer (Key : Type) where
  copyLimit : ℕ
  leases : OrderedTable Token Key

structure Settings where
  ramBytes : ℕ
  diskBytes : ℕ
  maxEntries : ℕ
  capacity_pos : 0 < ramBytes + diskBytes
  maxEntries_pos : 1 ≤ maxEntries

/-- `capacity`. -/
def Settings.capacity (settings : Settings) : Tier → ℕ
  | .ram => settings.ramBytes
  | .disk => settings.diskBytes

/-- An `acquire` that waits on the condition. -/
structure Waiter (Key : Type) where
  consumer : Token
  key : Key
  size : ℕ

/-- The cache, the calls that wait, and the identities that `uuid4` has made. -/
structure State (Key : Type) where
  entries : OrderedTable Key Entry
  consumers : OrderedTable Token (Consumer Key)
  metrics : Metrics
  waiting : List (Waiter Key)
  issued : List Token

inductive CacheError
  | value (message : String)
  /-- There is nothing under a key, or no number that can be added. -/
  | missing
  | cancelled
  | system
deriving DecidableEq

/-- What a call answers; an `acquire` that waits has no answer yet. -/
inductive Answer (Key : Type)
  | consumer (token : Token)
  | hit (key : Key) (lease : Token) (metadata : Metadata) (bytes : ℕ) (tier : Tier)
  | miss (key : Key) (bytes : ℕ) (tier : Tier)
  | bypass (reason : String)
  | published
  | released (found : Bool)
  | aborted
  | cleared
  | waits
  | raised (error : CacheError)
deriving DecidableEq

/-! ### Space -/

section Space

variable {Key : Type} [DecidableEq Key] (settings : Settings)

/-- `_used`. -/
def used (entries : OrderedTable Key Entry) (tier : Tier) : ℕ :=
  entries.total fun entry => if entry.tier = tier then entry.bytes else 0

def Fits (entries : OrderedTable Key Entry) (tier : Tier) (size : ℕ) : Prop :=
  used entries tier + size ≤ settings.capacity tier ∧ entries.length < settings.maxEntries

instance (entries : OrderedTable Key Entry) (tier : Tier) (size : ℕ) :
    Decidable (Fits settings entries tier size) :=
  inferInstanceAs (Decidable (_ ∧ _))

def Entry.evictable (entry : Entry) (tier : Tier) : Bool :=
  entry.tier == tier && entry.isReady && entry.leases.isEmpty

/-- The loop of `_space` over its listing. -/
def evict (tier : Tier) (size : ℕ) :
    List (Key × Entry) → OrderedTable Key Entry → Bool × OrderedTable Key Entry
  | [], entries => (decide (Fits settings entries tier size), entries)
  | (key, item) :: rest, entries =>
    if Fits settings entries tier size then (true, entries)
    else if item.evictable tier then evict tier size rest (entries.remove key)
    else evict tier size rest entries

/-- `_space`: whether the reservation fits now, and the entries that are left. -/
def space (tier : Tier) (size : ℕ) (entries : OrderedTable Key Entry) : Bool × OrderedTable Key Entry :=
  if settings.capacity tier < size then (false, entries)
  else evict settings tier size entries.items entries

def findTier (size : ℕ) : List Tier → OrderedTable Key Entry → Option Tier × OrderedTable Key Entry
  | [], entries => (none, entries)
  | tier :: rest, entries =>
    if settings.capacity tier = 0 then findTier size rest entries
    else
      match space settings tier size entries with
      | (true, left) => (some tier, left)
      | (false, left) => findTier size rest left

end Space

/-! ### Operations -/

/-- What an `acquire` is told from outside: whether its time to wait is over, the identity for a lease,
and whether the storage of a new entry can be made. -/
structure Choice where
  expired : Bool
  lease : Token
  opens : Bool

section Operations

variable {Key : Type} [DecidableEq Key] (settings : Settings) (state : State Key)

/-- The bytes of the entries that a consumer holds; none if one of them is not there. -/
def copied (entries : OrderedTable Key Entry) (record : Consumer Key) : Option ℕ :=
  (record.leases.values.mapM entries.get?).map fun held => (held.map Entry.bytes).sum

def Consumer.hold (record : Consumer Key) (lease : Token) (key : Key) : Consumer Key :=
  { record with leases := record.leases.push lease key }

def Consumer.drop (record : Consumer Key) (lease : Token) : Consumer Key :=
  { record with leases := record.leases.remove lease }

/-- `begin`. -/
def State.begin (token : Token) (copyLimit : ℤ) : State Key × Answer Key :=
  if copyLimit < 0 then (state, .raised (.value "nonnegative consumer copy budget required"))
  else ({ state with
      consumers := state.consumers.push token ⟨copyLimit.toNat, ∅⟩
      issued := token :: state.issued },
    .consumer token)

/-- `acquire` of an entry that is there and is not generating. -/
def State.hit (consumer : Token) (record : Consumer Key) (key : Key) (item : Entry)
    (metadata : Metadata) (lease : Token) : State Key × Answer Key :=
  match copied state.entries record with
  | none => (state, .raised .missing)
  | some held =>
    if record.copyLimit < held + item.bytes then (state, .bypass "consumer_copy_budget")
    else
      let lent := { state with
        consumers := state.consumers.modify consumer (·.hold lease key)
        entries := (state.entries.modify key fun entry =>
          { entry with leases := lease :: entry.leases }).moveToEnd key
        issued := lease :: state.issued }
      -- The sum of saved seconds comes after the lease is recorded.
      match state.metrics.generationSecondsSaved.sum metadata.generationSeconds with
      | none => (lent, .raised .missing)
      | some saved =>
        ({ lent with metrics := { lent.metrics with generationSecondsSaved := saved } },
          .hit key lease metadata item.bytes item.tier)

/-- `acquire` of an entry that is not there. -/
def State.miss (consumer : Token) (key : Key) (size : ℕ) (opens : Bool) : State Key × Answer Key :=
  match findTier settings size [.ram, .disk] state.entries with
  | (none, entries) => ({ state with entries := entries }, .bypass "capacity_or_pinned_entries")
  | (some tier, entries) =>
    if opens then
      ({ state with entries := entries.push key ⟨size, tier, .generating, consumer, []⟩ },
        .miss key size tier)
    else ({ state with entries := entries }, .raised .system)

/-- One pass of the loop of `acquire`, and what follows it. -/
def State.look (consumer : Token) (key : Key) (size : ℕ) (choice : Choice) : State Key × Answer Key :=
  match state.entries.get? key with
  | some item =>
    match item.stage with
    | .generating =>
      if (state.consumers.get? consumer).isNone then (state, .raised .cancelled)
      else if choice.expired then (state, .bypass "generation_wait_timeout")
      else ({ state with waiting := ⟨consumer, key, size⟩ :: state.waiting }, .waits)
    | .ready metadata =>
      match state.consumers.get? consumer with
      | none => (state, .raised .missing)
      | some record => state.hit consumer record key item metadata choice.lease
  | none =>
    match state.consumers.get? consumer with
    | none => (state, .raised .missing)
    | some _ => state.miss settings consumer key size choice.opens

/-- `acquire`; a key is missing where `cache_key` raises. -/
def State.acquire (consumer : Token) (key : Option Key) (size : ℤ) (choice : Choice) :
    State Key × Answer Key :=
  match key with
  | none => (state, .raised (.value "incomplete cache identity or invalid verification namespace"))
  | some key =>
    if size < 0 then (state, .raised (.value "invalid cache storage reservation"))
    else state.look settings consumer key size.toNat choice

def metadataLimit : ℕ := 128 * 1024

/-- `publish`; the operating system may refuse to truncate, seal or open the storage. -/
def State.publish (consumer : Token) (key : Key) (metadata : Metadata) (size : ℤ) (works : Bool) :
    State Key × Answer Key :=
  match state.entries.get? key with
  | none => (state, .raised .missing)
  | some item =>
    if item.isReady ∨ item.producer ≠ consumer ∨ ¬(0 ≤ size ∧ size ≤ item.bytes) then
      (state, .raised (.value "invalid cache publication"))
    else
      match metadata.canonicalBytes with
      | none => (state, .raised (.value "Out of range float values are not JSON compliant"))
      | some bytes =>
        if metadataLimit < bytes then
          (state, .raised (.value "cache metadata exceeds its per-entry bound"))
        else if ¬works then (state, .raised .system)
        else
          -- The sums of copied bytes and seconds come after the entry is ready.
          let ready := { state with
            entries := state.entries.modify key fun entry =>
              { entry with bytes := size.toNat, stage := .ready metadata } }
          match state.metrics.publicationCopyBytes.sum metadata.publicationCopyBytes with
          | none => (ready, .raised .missing)
          | some bytes =>
            let counted :=
              { ready with metrics := { ready.metrics with publicationCopyBytes := bytes } }
            match state.metrics.publicationCopySeconds.sum metadata.publicationCopySeconds with
            | none => (counted, .raised .missing)
            | some seconds =>
              ({ counted with
                metrics := { counted.metrics with publicationCopySeconds := seconds } },
                .published)

/-- `release` of a consumer whose record is known. -/
def State.letGo (consumer : Token) (record : Consumer Key) (lease : Token) : State Key :=
  { state with
    consumers := state.consumers.modify consumer (·.drop lease)
    entries :=
      match record.leases.get? lease with
      | none => state.entries
      | some key => state.entries.modify key fun entry =>
        { entry with leases := entry.leases.erase lease } }

/-- `release`. -/
def State.release (consumer lease : Token) : State Key :=
  match state.consumers.get? consumer with
  | none => state
  | some record => state.letGo consumer record lease

def Entry.generatedBy (entry : Entry) (consumer : Token) : Bool :=
  !entry.isReady && entry.producer == consumer

def dropGenerated (consumer : Token) :
    List (Key × Entry) → OrderedTable Key Entry → OrderedTable Key Entry
  | [], entries => entries
  | (key, item) :: rest, entries =>
    if item.generatedBy consumer then dropGenerated consumer rest (entries.remove key)
    else dropGenerated consumer rest entries

/-- `end` of a live consumer. -/
def State.end (consumer : Token) (record : Consumer Key) : State Key :=
  let left := (record.leases.items.map Prod.fst).foldl (fun state lease =>
    state.release consumer lease) state
  { left with
    entries := dropGenerated consumer left.entries.items left.entries
    consumers := left.consumers.remove consumer }

/-- `abort`. -/
def State.abort (consumer : Token) (key : Key) : State Key :=
  match state.entries.get? key with
  | none => state
  | some item =>
    if item.generatedBy consumer then { state with entries := state.entries.remove key } else state

/-- `clear`. -/
def State.clear : State Key × Answer Key :=
  if state.consumers.items.isEmpty then ({ state with entries := ∅ }, .cleared)
  else (state, .raised (.value "cannot clear a cache with live consumers"))

end Operations

/-! ### Requests -/

/-- A request to the cache, or the end of a wait. -/
inductive Action (Key : Type)
  | begin (token : Token) (copyLimit : ℤ)
  | acquire (consumer : Token) (key : Option Key) (size : ℤ) (choice : Choice)
  | wake (index : ℕ) (choice : Choice)
  | publish (consumer : Token) (key : Key) (metadata : Metadata) (size : ℤ) (works : Bool)
  | release (consumer lease : Token)
  | end (consumer : Token)
  | abort (consumer : Token) (key : Key)
  | clear

/-- The identity that `uuid4` makes for a request. -/
def Action.token? {Key : Type} : Action Key → Option Token
  | .begin token _ => some token
  | .acquire _ _ _ choice => some choice.lease
  | .wake _ choice => some choice.lease
  | _ => none

namespace State

variable {Key : Type} [DecidableEq Key] (settings : Settings) (state : State Key)

/-- `dispatch` of a request that names a live consumer. -/
def live (consumer : Token) (serve : Consumer Key → State Key × Answer Key) : State Key × Answer Key :=
  match state.consumers.get? consumer with
  | none => (state, .raised (.value "unknown or retired cache consumer"))
  | some record => serve record

def serve : Action Key → Option (State Key × Answer Key)
  | .begin token copyLimit => some (state.begin token copyLimit)
  | .acquire consumer key size choice =>
    some (state.live consumer fun _ => state.acquire settings consumer key size choice)
  | .wake index choice => state.waiting[index]?.map fun waiter =>
    { state with waiting := state.waiting.eraseIdx index }.look settings
      waiter.consumer waiter.key waiter.size choice
  | .publish consumer key metadata size works =>
    some (state.live consumer fun _ => state.publish consumer key metadata size works)
  | .release consumer lease =>
    some (state.live consumer fun record =>
      (state.letGo consumer record lease, .released true))
  | .end consumer =>
    some (state.live consumer fun record => (state.end consumer record, .released true))
  | .abort consumer key => some (state.live consumer fun _ => (state.abort consumer key, .aborted))
  | .clear => some state.clear

/-- One step: the identity of the request is new. -/
def step (action : Action Key) : Option (State Key × Answer Key) :=
  if ∀ token, action.token? = some token → token ∉ state.issued then state.serve settings action
  else none

end State

def cacheSystem (Key : Type) [DecidableEq Key] (settings : Settings) :
    System (State Key) (Action Key) where
  initial state := state = ⟨∅, ∅, .zero, [], []⟩
  step state action := (state.step settings action).map Prod.fst

end TinyDSV41.Cache
