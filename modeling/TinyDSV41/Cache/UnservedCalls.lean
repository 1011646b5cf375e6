/-
**What calls leave behind that are not served.**

`_space` evicts entry by entry, and may have evicted the last entry that it can when it gives up; the
bypass that follows has then cost entries for nothing. `acquire` and `publish` change the leases and the
entries before they add up metadata, so metadata without a number that can be added leaves a lease that
nobody knows, or an entry whose producer was told of an error.

* `space_refused`, `space_idle` — what a tier that has no room has lost.
* `bypass_spares` — which bypasses cost nothing.
* `failed_call_leaves` — which failed calls leave the leases and the entries as they were.
-/

import TinyDSV41.Cache.CacheInvariants

namespace TinyDSV41.Cache

open Lib State OrderedTable List
open Option (bind_some map_eq_some_iff)
open Prod (fst mk snd)

variable {Key : Type} [DecidableEq Key] {settings : Settings} {state after : State Key}
  {entries left : OrderedTable Key Entry} {record : Consumer Key} {consumer lease : Token}
  {key : Key} {item entry : Entry} {tier : Tier} {size : ℕ} {action : Action Key}
  {answer : Answer Key}

/-! ### Refused reservations -/

/-- `_space` looks for entries to evict from the tier. -/
def Settings.Tries (settings : Settings) (size : ℕ) (tier : Tier) : Prop :=
  settings.capacity tier ≠ 0 ∧ size ≤ settings.capacity tier

/-- Nothing can be evicted from the tiers that are tried. -/
def Pinned (settings : Settings) (entries : OrderedTable Key Entry) (size : ℕ) : Prop :=
  ∀ tier, settings.Tries size tier →
    ∀ key entry, entries.get? key = some entry → entry.evictable tier = false

/-- No ready entry is gone, and every tier holds what it held. -/
def Spared (before after : OrderedTable Key Entry) : Prop :=
  (∀ key entry, before.get? key = some entry → entry.isReady = true → after.get? key = some entry) ∧
  ∀ tier, used after tier = used before tier

theorem Fewer.gone {may : Entry → Prop} (fewer : Fewer may entries left)
    (absent : entries.get? key = none) : left.get? key = none := by
  rw [Option.eq_none_iff_forall_ne_some]
  intro entry there
  rw [fewer.sub key entry there] at absent
  cases absent

variable {listing : List (Key × Entry)}

theorem evict_refused (lists : Lists listing entries)
    (refused : (evict settings tier size listing entries).1 = false) (mem : (key, item) ∈ listing)
    (evictable : item.evictable tier = true) :
    (evict settings tier size listing entries).2.get? key = none := by
  induction listing generalizing entries with
  | nil => cases mem
  | cons first rest known =>
    obtain ⟨name, found⟩ := first
    unfold evict at refused ⊢
    split_ifs at refused ⊢ with fits may
    · have removed : Fewer (·.evictable tier = true) entries (entries.remove name) :=
        Fewer.remove fun entry there => by
          rw [lists name found mem_cons_self entry there]
          exact may
      have listed : Lists rest (entries.remove name) := lists.tail.fewer removed
      rcases mem_cons.mp mem with same | later
      · cases same
        exact (evict_fewer listed).gone get?_remove_self
      · exact known listed refused later
    · rcases mem_cons.mp mem with same | later
      · cases same
        exact absurd evictable may
      · exact known lists.tail refused later

theorem evict_idle (none_ : ∀ pair ∈ listing, pair.2.evictable tier = false) :
    (evict settings tier size listing entries).2 = entries := by
  induction listing with
  | nil => rfl
  | cons first rest known =>
    obtain ⟨here, later⟩ := forall_mem_cons.mp none_
    unfold evict
    split_ifs with fits evictable
    · rfl
    · rw [here] at evictable
      cases evictable
    · exact known later

theorem space_refused (refused : (space settings tier size entries).1 = false)
    (fits : size ≤ settings.capacity tier) (there : entries.get? key = some entry)
    (evictable : entry.evictable tier = true) :
    (space settings tier size entries).2.get? key = none := by
  unfold space at refused ⊢
  rw [if_neg (Nat.not_lt.mpr fits)] at refused ⊢
  exact evict_refused (lists_items entries) refused (mem_items.mpr there) evictable

theorem space_idle (none_ : size ≤ settings.capacity tier →
      ∀ key entry, entries.get? key = some entry → entry.evictable tier = false) :
    (space settings tier size entries).2 = entries := by
  unfold space
  split_ifs with large
  · rfl
  · exact evict_idle fun pair mem =>
      none_ (Nat.le_of_not_lt large) pair.1 pair.2 (mem_items.mp mem)

/-- Where no tier has room, every tier that was tried has lost what could be evicted from it. -/
theorem findTier_refused {tiers : List Tier}
    (refused : (findTier settings size tiers entries).1 = none) (tried : tier ∈ tiers)
    (tries : settings.Tries size tier) (there : entries.get? key = some entry)
    (evictable : entry.evictable tier = true) :
    (findTier settings size tiers entries).2.get? key = none := by
  induction tiers generalizing entries with
  | nil => cases tried
  | cons first rest known =>
    have fewer : Fewer (·.leases = []) entries (space settings first size entries).2 :=
      space_fewer first size
    unfold findTier at refused ⊢
    split_ifs at refused ⊢ with empty
    · rcases mem_cons.mp tried with rfl | later
      · exact absurd empty tries.1
      · exact known refused later there
    · split at refused
      case h_1 => cases refused
      case h_2 left found =>
        rw [found] at fewer
        by_cases stays : left.get? key = some entry
        · rcases mem_cons.mp tried with rfl | later
          · have removed := space_refused (congrArg fst found) tries.2 there evictable
            rw [found] at removed
            rw [removed] at stays
            cases stays
          · exact known refused later stays
        · refine (findTier_fewer size rest).gone ?_
          rw [Option.eq_none_iff_forall_ne_some]
          intro other here
          rw [fewer.sub key other here] at there
          cases there
          exact stays here

theorem findTier_idle {tiers : List Tier} (pinned : Pinned settings entries size) :
    (findTier settings size tiers entries).2 = entries := by
  induction tiers with
  | nil => rfl
  | cons first rest known =>
    unfold findTier
    split_ifs with empty
    · exact known
    · have idle : (space settings first size entries).2 = entries :=
        space_idle fun fits => pinned first ⟨empty, fits⟩
      split
      case h_1 left found =>
        rw [found] at idle
        exact idle
      case h_2 left found =>
        rw [found] at idle
        subst idle
        exact known

/-- The bytes that an `acquire`, or one that wakes, asks for. -/
def State.asked (state : State Key) : Action Key → Option ℕ
  | .acquire _ _ size _ => some size.toNat
  | .wake index _ => state.waiting[index]?.map Waiter.size
  | _ => none

def noRoom : Answer Key := .bypass "capacity_or_pinned_entries"

variable {metadata : Metadata}

theorem hit_has_room : (state.hit consumer record key item metadata lease).2 ≠ noRoom := by
  unfold hit noRoom
  split
  · exact fun same => nomatch same
  · split_ifs
    · intro same
      exact absurd (Answer.bypass.inj same) (by decide)
    · split
      all_goals exact fun same => nomatch same

variable {choice : Choice}

/-- A pass of `acquire` that finds no room has asked every tier. -/
theorem look_no_room (bypassed : (state.look settings consumer key size choice).2 = noRoom) :
    (findTier settings size [.ram, .disk] state.entries).1 = none ∧
      (state.look settings consumer key size choice).1.entries
        = (findTier settings size [.ram, .disk] state.entries).2 := by
  unfold look at bypassed ⊢
  split at bypassed
  case h_1 there =>
    split at bypassed
    case h_1 =>
      split_ifs at bypassed
      · cases bypassed
      · exact absurd (Answer.bypass.inj bypassed) (by decide)
      · cases bypassed
    case h_2 =>
      split at bypassed
      · cases bypassed
      · exact absurd bypassed hit_has_room
  case h_2 =>
    split at bypassed
    case h_1 => cases bypassed
    case h_2 =>
      unfold miss at bypassed ⊢
      split at bypassed
      case h_1 left found =>
        rw [found]
        exact ⟨rfl, rfl⟩
      case h_2 =>
        split_ifs at bypassed
        all_goals cases bypassed

/-- An `acquire` that finds no room has asked every tier. -/
theorem step_no_room (asked : state.asked action = some size)
    (stepped : state.step settings action = some (after, noRoom)) :
    (findTier settings size [.ram, .disk] state.entries).1 = none ∧
      after.entries = (findTier settings size [.ram, .disk] state.entries).2 := by
  unfold step at stepped
  split_ifs at stepped
  cases action with
  | acquire consumer named requested choice =>
    cases asked
    have served := Option.some.inj stepped
    unfold live at served
    split at served
    · cases congrArg snd served
    · unfold acquire at served
      split at served
      · cases congrArg snd served
      · split_ifs at served
        · cases congrArg snd served
        · have found := look_no_room (congrArg snd served)
          rw [congrArg fst served] at found
          exact found
  | wake index choice =>
    obtain ⟨waiter, waits, looked⟩ := map_eq_some_iff.mp stepped
    have own : state.asked (.wake index choice) = some waiter.size := by
      show state.waiting[index]?.map Waiter.size = some waiter.size
      rw [waits]
      rfl
    rw [own] at asked
    cases asked
    have found := look_no_room (congrArg snd looked)
    rw [congrArg fst looked] at found
    exact found
  | _ => cases asked

/-- An `acquire` that no tier can hold has cost nothing exactly if nothing could be evicted from the
tiers that are large enough. -/
theorem bypass_spares (settings : Settings) (state after : State Key) (action : Action Key) (size : ℕ)
    (asked : state.asked action = some size)
    (stepped : state.step settings action = some (after, noRoom)) :
    Spared state.entries after.entries ↔ Pinned settings state.entries size := by
  obtain ⟨refused, same⟩ := step_no_room asked stepped
  rw [same]
  constructor
  · rintro ⟨kept, -⟩ tier tries key entry there
    rw [← Bool.not_eq_true]
    intro evictable
    have member : tier ∈ [Tier.ram, Tier.disk] := by cases tier <;> decide
    have gone := findTier_refused refused member tries there evictable
    have ready : entry.isReady = true := by
      simp only [Entry.evictable, Bool.and_eq_true] at evictable
      exact evictable.1.2
    rw [kept key entry there ready] at gone
    cases gone
  · intro pinned
    rw [findTier_idle pinned]
    exact ⟨fun _ _ there _ => there, fun _ => rfl⟩

theorem pinned_of_all
    (all : (entries.items.all fun pair => !pair.2.evictable .ram && !pair.2.evictable .disk) = true) :
    Pinned settings entries size := by
  intro tier _ key entry there
  have member := mem_items.mpr there
  have both := all_eq_true.mp all (key, entry) member
  simp only [Bool.and_eq_true, Bool.not_eq_true'] at both
  cases tier with
  | ram => exact both.1
  | disk => exact both.2

/-- The bypass behind some requests, and whether the entries before it could be evicted. -/
def bypassBehind (actions : List (Action ℕ)) (action : Action ℕ) : Option (Bool × Option (Answer ℕ)) :=
  ((cacheSystem ℕ smallCache).run System.always ⟨∅, ∅, .zero, [], []⟩ actions).map fun state =>
    (state.entries.items.all fun pair => !pair.2.evictable .ram && !pair.2.evictable .disk,
      (state.step smallCache action).map snd)

def leasedEntry : List (Action ℕ) :=
  [.begin "a" 16, .acquire "a" (some 1) 8 ⟨false, "b", true⟩, .publish "a" 1 sampleMetadata 8 true,
    .acquire "a" (some 1) 8 ⟨false, "c", true⟩]

theorem bypass_spares_leased : ∃ state after : State ℕ,
    (cacheSystem ℕ smallCache).Reachable System.always state ∧
      state.step smallCache (.acquire "a" (some 2) 16 ⟨false, "d", true⟩) = some (after, noRoom) ∧
      Spared state.entries after.entries := by
  have executed : bypassBehind leasedEntry (.acquire "a" (some 2) 16 ⟨false, "d", true⟩)
      = some (true, some noRoom) := by
    decide +kernel
  obtain ⟨state, finish, same⟩ := map_eq_some_iff.mp executed
  obtain ⟨all, answers⟩ := mk.inj same
  obtain ⟨⟨after, answer⟩, stepped, rfl⟩ := map_eq_some_iff.mp answers
  refine ⟨state, after, System.reachable_of_run rfl finish, stepped, ?_⟩
  exact (bypass_spares smallCache state after _ 16 rfl stepped).mpr (pinned_of_all all)

def readyEntry : List (Action ℕ) :=
  [.begin "a" 16, .acquire "a" (some 1) 8 ⟨false, "b", true⟩, .publish "a" 1 sampleMetadata 8 true,
    .acquire "a" (some 2) 8 ⟨false, "c", true⟩]

/-- A reservation of all bytes evicts the ready entry, and is then refused for the other one. -/
theorem bypass_evicts : ∃ state after : State ℕ,
    (cacheSystem ℕ smallCache).Reachable System.always state ∧
      state.step smallCache (.acquire "a" (some 3) 16 ⟨false, "d", true⟩) = some (after, noRoom) ∧
      (state.entries.get? 1).map Entry.isReady = some true ∧ after.entries.get? 1 = none ∧
      ¬ Spared state.entries after.entries := by
  have executed : ((cacheSystem ℕ smallCache).run System.always ⟨∅, ∅, .zero, [], []⟩ readyEntry).map
      (fun state => ((state.entries.get? 1).map Entry.isReady,
        (state.step smallCache (.acquire "a" (some 3) 16 ⟨false, "d", true⟩)).map fun next =>
          (next.2, next.1.entries.get? 1)))
      = some (some true, some (noRoom, none)) := by
    decide +kernel
  obtain ⟨state, finish, same⟩ := map_eq_some_iff.mp executed
  obtain ⟨ready, answers⟩ := mk.inj same
  obtain ⟨⟨after, answer⟩, stepped, last⟩ := map_eq_some_iff.mp answers
  obtain ⟨rfl, gone⟩ := mk.inj last
  refine ⟨state, after, System.reachable_of_run rfl finish, stepped, ready, gone, ?_⟩
  rintro ⟨kept, -⟩
  obtain ⟨entry, there, isReady⟩ := map_eq_some_iff.mp ready
  rw [kept 1 entry there isReady] at gone
  cases gone

/-! ### Failed calls -/

def SameHoldings (before after : State Key) : Prop :=
  (∀ token, after.consumers.get? token = before.consumers.get? token) ∧
  ∀ key, after.entries.get? key = before.entries.get? key

/-- A lease is due on an entry whose saved seconds cannot be added. -/
def State.Overlends (state : State Key) (consumer : Token) (key : Key) : Prop :=
  ∃ record item metadata held, state.consumers.get? consumer = some record ∧
    state.entries.get? key = some item ∧ item.stage = .ready metadata ∧
    copied state.entries record = some held ∧ held + item.bytes ≤ record.copyLimit ∧
    state.metrics.generationSecondsSaved.sum metadata.generationSeconds = none

/-- A publication is due whose copied bytes or seconds cannot be added. -/
def State.Overpublishes (state : State Key) (consumer : Token) (key : Key) (metadata : Metadata)
    (size : ℤ) : Prop :=
  ∃ item bytes, state.entries.get? key = some item ∧ item.generatedBy consumer = true ∧
    (0 ≤ size ∧ size ≤ item.bytes) ∧ metadata.canonicalBytes = some bytes ∧ bytes ≤ metadataLimit ∧
    (state.metrics.publicationCopyBytes.sum metadata.publicationCopyBytes = none ∨
      state.metrics.publicationCopySeconds.sum metadata.publicationCopySeconds = none)

/-- A call that meets metadata only behind its changes. -/
def State.Strands (state : State Key) : Action Key → Prop
  | .acquire consumer key size _ => 0 ≤ size ∧ ∃ name, key = some name ∧ state.Overlends consumer name
  | .wake index _ => ∃ waiter, state.waiting[index]? = some waiter ∧
      state.Overlends waiter.consumer waiter.key
  | .publish consumer key metadata size works =>
    (state.consumers.get? consumer).isSome = true ∧ works = true ∧
      state.Overpublishes consumer key metadata size
  | _ => False

/-- An `acquire`, also one that wakes, or a `publish`. -/
def Action.isCall : Action Key → Bool
  | .acquire .. | .wake .. | .publish .. => true
  | _ => false

/-- The error is one of the arguments or of metadata, not of the storage for a new entry. -/
def Action.blamed : Action Key → CacheError → Bool
  | .publish .., _ => true
  | _, .system => false
  | _, _ => true

/-- Where a failed call for `action` leaves the leases and the entries as they were. -/
def Harmless (state after : State Key) (action : Action Key) (answer : Answer Key) : Prop :=
  ∀ error, answer = .raised error → action.blamed error = true → SameHoldings state after

theorem SameHoldings.refl (state : State Key) : SameHoldings state state :=
  ⟨fun _ => rfl, fun _ => rfl⟩

variable {error : CacheError}

theorem hit_harmless
    (read : ∀ held, copied state.entries record = some held → held + item.bytes ≤ record.copyLimit →
      state.metrics.generationSecondsSaved.sum metadata.generationSeconds ≠ none)
    (raised : (state.hit consumer record key item metadata lease).2 = .raised error) :
    SameHoldings state (state.hit consumer record key item metadata lease).1 := by
  unfold hit at raised ⊢
  cases sum : copied state.entries record with
  | none => exact .refl state
  | some held =>
    simp only [sum] at raised ⊢
    split_ifs at raised ⊢ with exceeds
    cases saved : state.metrics.generationSecondsSaved.sum metadata.generationSeconds with
    | none => exact absurd saved (read held sum (Nat.le_of_not_lt exceeds))
    | some total =>
      simp only [saved] at raised
      cases raised

theorem miss_harmless {opens : Bool}
    (raised : (state.miss settings consumer key size opens).2 = .raised error) : error = .system := by
  unfold miss at raised
  split at raised
  · cases raised
  · split_ifs at raised
    cases raised
    rfl

/-- A failed pass of `acquire` leaves what was there, unless it has lent the entry. -/
theorem look_harmless (spared : ¬ state.Overlends consumer key)
    (raised : (state.look settings consumer key size choice).2 = .raised error)
    (blamed : error ≠ .system) :
    SameHoldings state (state.look settings consumer key size choice).1 := by
  unfold look at raised ⊢
  cases there : state.entries.get? key with simp only [there] at raised ⊢
  | none =>
    cases known : state.consumers.get? consumer with
    | none => exact .refl state
    | some record =>
      simp only [known] at raised
      exact absurd (miss_harmless raised) blamed
  | some item =>
    cases stage : item.stage with simp only [stage] at raised ⊢
    | generating =>
      split_ifs at raised ⊢
      exact .refl state
    | ready metadata =>
      cases known : state.consumers.get? consumer with
      | none => exact .refl state
      | some record =>
        simp only [known] at raised ⊢
        refine hit_harmless (fun held sum room unread => ?_) raised
        exact spared ⟨record, item, metadata, held, known, there, stage, sum, room, unread⟩

theorem modified_differs {change : Entry → Entry} (there : entries.get? key = some entry)
    (differs : change entry ≠ entry) : (entries.modify key change).get? key ≠ entries.get? key := by
  have changed : (entries.modify key change).get? key = some (change entry) :=
    get?_modify_some.mpr ⟨entry, there, (if_pos rfl).symm⟩
  rw [changed, there]
  exact fun same => differs (Option.some.inj same)

theorem look_strands (settings : Settings) (lends : state.Overlends consumer key) :
    (state.look settings consumer key size choice).2 = .raised .missing ∧
      ¬ SameHoldings state (state.look settings consumer key size choice).1 := by
  obtain ⟨record, item, metadata, held, known, there, ready, sum, room, unread⟩ := lends
  have looked : state.look settings consumer key size choice
      = state.hit consumer record key item metadata choice.lease := by
    unfold look
    rw [there]
    dsimp only
    rw [ready]
    rw [known]
  rw [looked]
  unfold hit
  rw [sum]
  dsimp only
  rw [if_neg (Nat.not_lt.mpr room), unread]
  refine ⟨rfl, fun same => ?_⟩
  have moved := get?_moveToEnd.symm.trans (same.2 key)
  refine modified_differs there (fun equal => ?_) moved
  have longer := congrArg (fun entry => entry.leases.length) equal
  simp at longer

theorem generatedBy_iff :
    item.generatedBy consumer = true ↔ ¬ item.isReady = true ∧ item.producer = consumer := by
  simp [Entry.generatedBy]

/-- A failed `publish` leaves what was there, unless the entry is ready by then. -/
theorem publish_harmless {bytes : ℤ} {works : Bool}
    (spared : works = true → ¬ state.Overpublishes consumer key metadata bytes)
    (raised : (state.publish consumer key metadata bytes works).2 = .raised error) :
    SameHoldings state (state.publish consumer key metadata bytes works).1 := by
  unfold publish at raised ⊢
  cases there : state.entries.get? key with
  | none => exact .refl state
  | some item =>
    simp only [there] at raised ⊢
    by_cases refused : item.isReady ∨ item.producer ≠ consumer ∨ ¬(0 ≤ bytes ∧ bytes ≤ item.bytes)
    · rw [if_pos refused]
      exact .refl state
    · rw [if_neg refused] at raised ⊢
      rw [not_or, not_or, not_not, not_not] at refused
      obtain ⟨generates, mine, within⟩ := refused
      cases canonical : metadata.canonicalBytes with
      | none => exact .refl state
      | some length =>
        simp only [canonical] at raised ⊢
        by_cases exceeds : metadataLimit < length
        · rw [if_pos exceeds]
          exact .refl state
        · rw [if_neg exceeds] at raised ⊢
          by_cases fails : ¬ works
          · rw [if_pos fails]
            exact .refl state
          · rw [if_neg fails] at raised
            have due : ¬ (state.metrics.publicationCopyBytes.sum metadata.publicationCopyBytes = none ∨
                state.metrics.publicationCopySeconds.sum metadata.publicationCopySeconds = none) :=
              fun unread => spared (not_not.mp fails) ⟨item, length, there,
                generatedBy_iff.mpr ⟨generates, mine⟩, within, canonical, Nat.le_of_not_lt exceeds, unread⟩
            obtain ⟨first, second⟩ := not_or.mp due
            obtain ⟨total, copied⟩ := Option.ne_none_iff_exists'.mp first
            obtain ⟨seconds, spent⟩ := Option.ne_none_iff_exists'.mp second
            simp only [copied, spent] at raised
            cases raised

theorem publish_strands {bytes : ℤ} (due : state.Overpublishes consumer key metadata bytes) :
    (state.publish consumer key metadata bytes true).2 = .raised .missing ∧
      ¬ SameHoldings state (state.publish consumer key metadata bytes true).1 := by
  obtain ⟨item, length, there, generated, within, canonical, short, unread⟩ := due
  obtain ⟨generates, mine⟩ := generatedBy_iff.mp generated
  have accepted : ¬ (item.isReady = true ∨ item.producer ≠ consumer ∨
      ¬ (0 ≤ bytes ∧ bytes ≤ item.bytes)) := by
    rw [not_or, not_or, not_not, not_not]
    exact ⟨generates, mine, within⟩
  -- The entry is ready in each state behind the change.
  have differs : ∀ metrics, ¬ SameHoldings state { state with
      entries := state.entries.modify key (·.publish metadata bytes.toNat), metrics := metrics } := by
    intro metrics same
    refine modified_differs there (fun equal => generates ?_) (same.2 key)
    rw [← equal]
    rfl
  unfold publish
  simp only [there, if_neg accepted, canonical, if_neg (Nat.not_lt.mpr short)]
  rw [if_neg (not_not.mpr trivial)]
  cases first : state.metrics.publicationCopyBytes.sum metadata.publicationCopyBytes with
  | none => exact ⟨rfl, differs _⟩
  | some total =>
    simp only [first, reduceCtorEq, false_or] at unread
    simp only [unread]
    exact ⟨trivial, differs _⟩

variable {serve : Consumer Key → State Key × Answer Key}

omit [DecidableEq Key] in
theorem live_eq (known : state.consumers.get? consumer = some record) :
    state.live consumer serve = serve record := by
  unfold live
  rw [known]

theorem live_harmless (served : state.live consumer serve = (after, .raised error))
    (each : ∀ record, state.consumers.get? consumer = some record → serve record = (after, .raised
      error) → SameHoldings state after) : SameHoldings state after := by
  unfold live at served
  cases known : state.consumers.get? consumer with
  | none =>
    rw [known] at served
    cases served
    exact .refl state
  | some record =>
    rw [known] at served
    exact each record known served

/-- A failed `acquire` or `publish` leaves the leases and the entries as they were exactly if it does not
meet metadata that cannot be added behind its changes. -/
theorem failed_call_leaves (settings : Settings) (state after : State Key) (action : Action Key)
    (answer : Answer Key) (call : action.isCall = true)
    (stepped : state.step settings action = some (after, answer)) :
    Harmless state after action answer ↔ ¬ state.Strands action := by
  unfold step at stepped
  split_ifs at stepped
  cases action with
  | acquire consumer named requested choice =>
    have served := Option.some.inj stepped
    constructor
    · rintro harmless ⟨nonnegative, key, rfl, lends⟩
      obtain ⟨record, known⟩ : ∃ record, state.consumers.get? consumer = some record := by
        obtain ⟨record, -, -, -, known, -⟩ := lends
        exact ⟨record, known⟩
      rw [live_eq known] at served
      unfold acquire at served
      dsimp only at served
      rw [if_neg (Int.not_lt.mpr nonnegative)] at served
      obtain ⟨raised, differs⟩ := look_strands settings lends
      rw [served] at raised differs
      exact differs (harmless _ raised rfl)
    · rintro spared error rfl blamed
      refine live_harmless served fun record known acquired => ?_
      unfold acquire at acquired
      cases named with
      | none =>
        cases acquired
        exact .refl state
      | some key =>
        dsimp only at acquired
        split_ifs at acquired with negative
        · cases acquired
          exact .refl state
        · have kept := look_harmless (fun lends => spared ⟨Int.not_lt.mp negative, key, rfl, lends⟩)
            (congrArg snd acquired)
          rw [acquired] at kept
          refine kept ?_
          rintro rfl
          cases blamed
  | wake index choice =>
    obtain ⟨waiter, waits, looked⟩ := map_eq_some_iff.mp stepped
    constructor
    · rintro harmless ⟨other, same, lends⟩
      rw [waits] at same
      cases same
      have lends : State.Overlends { state with waiting := state.waiting.eraseIdx index }
          waiter.consumer waiter.key := lends
      obtain ⟨raised, differs⟩ := look_strands settings lends
      rw [looked] at raised differs
      exact differs (harmless _ raised rfl)
    · rintro spared error rfl blamed
      have spared : ¬ State.Overlends { state with waiting := state.waiting.eraseIdx index }
          waiter.consumer waiter.key := fun lends => spared ⟨waiter, waits, lends⟩
      have kept := look_harmless spared (congrArg snd looked)
      rw [looked] at kept
      refine kept ?_
      rintro rfl
      cases blamed
  | publish consumer key metadata size works =>
    have served := Option.some.inj stepped
    constructor
    · rintro harmless ⟨live, rfl, due⟩
      obtain ⟨record, known⟩ := Option.isSome_iff_exists.mp live
      rw [live_eq known] at served
      obtain ⟨raised, differs⟩ := publish_strands due
      rw [served] at raised differs
      exact differs (harmless _ raised rfl)
    · rintro spared error rfl -
      refine live_harmless served fun record known published => ?_
      have kept := publish_harmless
        (fun works due => spared ⟨Option.isSome_iff_exists.mpr ⟨record, known⟩, works, due⟩)
        (congrArg snd published)
      rw [published] at kept
      exact kept
  | _ => cases call

def generatedEntry : List (Action ℕ) :=
  [.begin "a" 16, .begin "b" 16, .acquire "a" (some 7) 8 ⟨false, "c", true⟩]

/-- The other consumer may not publish, and nothing changes. -/
theorem failed_call_leaves_generated : ∃ state after : State ℕ,
    (cacheSystem ℕ smallCache).Reachable System.always state ∧
      state.step smallCache (.publish "b" 7 sampleMetadata 8 true)
        = some (after, .raised (.value "invalid cache publication")) ∧
      SameHoldings state after := by
  have executed : ((cacheSystem ℕ smallCache).run System.always ⟨∅, ∅, .zero, [], []⟩
      generatedEntry).map (fun state => ((state.entries.get? 7).map (·.generatedBy "b"),
        (state.step smallCache (.publish "b" 7 sampleMetadata 8 true)).map snd))
      = some (some false, some (.raised (.value "invalid cache publication"))) := by
    decide +kernel
  obtain ⟨state, finish, same⟩ := map_eq_some_iff.mp executed
  obtain ⟨other, answers⟩ := mk.inj same
  obtain ⟨⟨after, answer⟩, stepped, rfl⟩ := map_eq_some_iff.mp answers
  refine ⟨state, after, System.reachable_of_run rfl finish, stepped, ?_⟩
  refine (failed_call_leaves smallCache state after _ _ rfl stepped).mpr ?_ _ rfl rfl
  rintro ⟨-, -, item, bytes, there, mine, -⟩
  rw [there] at other
  exact Bool.false_ne_true ((Option.some.inj other).symm.trans mine)

def bareMetadata : Metadata := ⟨some 2, none, none, none⟩

/-- Whether an entry is ready, and its leases. -/
structure View where
  isReady : Bool
  leases : List Token
deriving DecidableEq

def viewOf (state : State ℕ) (key : ℕ) : Option View :=
  (state.entries.get? key).map fun entry => ⟨entry.isReady, entry.leases⟩

theorem SameHoldings.view {before after : State ℕ} (same : SameHoldings before after) (key : ℕ) :
    viewOf after key = viewOf before key := by
  unfold viewOf
  rw [same.2 key]

/-- The producer publishes metadata without numbers and is told of an error, but the entry is ready; the
next consumer is told of an error, too, and holds a lease. -/
theorem failed_calls_strand : ∃ state ready after : State ℕ,
    (cacheSystem ℕ smallCache).Reachable System.always state ∧
      state.step smallCache (.publish "a" 7 bareMetadata 8 true) = some (ready, .raised .missing) ∧
      ready.step smallCache (.acquire "b" (some 7) 8 ⟨false, "d", true⟩) = some (after, .raised .missing) ∧
      viewOf state 7 = some ⟨false, []⟩ ∧ viewOf ready 7 = some ⟨true, []⟩ ∧
      viewOf after 7 = some ⟨true, ["d"]⟩ ∧ ¬ SameHoldings state ready ∧ ¬ SameHoldings ready after := by
  have published : ((cacheSystem ℕ smallCache).run System.always ⟨∅, ∅, .zero, [], []⟩
      generatedEntry).map (fun state => (viewOf state 7,
        (state.step smallCache (.publish "a" 7 bareMetadata 8 true)).map fun ready =>
          (ready.2, viewOf ready.1 7)))
      = some (some ⟨false, []⟩, some (.raised .missing, some ⟨true, []⟩)) := by
    decide +kernel
  have acquired : ((cacheSystem ℕ smallCache).run System.always ⟨∅, ∅, .zero, [], []⟩
      generatedEntry).bind (fun state =>
        (state.step smallCache (.publish "a" 7 bareMetadata 8 true)).bind fun ready =>
          (ready.1.step smallCache (.acquire "b" (some 7) 8 ⟨false, "d", true⟩)).map fun after =>
            (after.2, viewOf after.1 7))
      = some (.raised .missing, some ⟨true, ["d"]⟩) := by
    decide +kernel
  obtain ⟨state, finish, same⟩ := map_eq_some_iff.mp published
  obtain ⟨generates, answers⟩ := mk.inj same
  obtain ⟨⟨ready, answer⟩, publishes, same⟩ := map_eq_some_iff.mp answers
  obtain ⟨rfl, isReady⟩ := mk.inj same
  rw [finish, bind_some, publishes, bind_some] at acquired
  obtain ⟨⟨after, answer⟩, acquires, same⟩ := map_eq_some_iff.mp acquired
  obtain ⟨rfl, leased⟩ := mk.inj same
  refine ⟨state, ready, after, System.reachable_of_run rfl finish, publishes, acquires, generates, isReady,
    leased, fun same => ?_, fun same => ?_⟩
  · have view := same.view 7
    rw [isReady, generates] at view
    cases view
  · have view := same.view 7
    rw [leased, isReady] at view
    cases view

end TinyDSV41.Cache
