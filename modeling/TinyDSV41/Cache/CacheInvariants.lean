/-
**Bounds and leases of the input cache.**

Every operation keeps `Sound`: the tiers and the table are within their bounds, the leases that the
consumers record are the leases of the entries, and no consumer holds more than it may copy. An
operation changes the entries in one of four ways, each with a lemma of its own.

* `Fewer` — entries are taken out (`evict_fewer`, `findTier_fewer`, `dropGenerated_fewer`).
* `Sound.fewer`, `Sound.hold`, `Sound.place`, `Sound.publish`, `Sound.letGo` — the invariant along the
  changes.
* `cache_sound_step` — one request, and that an entry with a lease outlives it.
* `cache_bounds` — every reachable state.
-/

import TinyDSV41.Cache.InputCache

namespace TinyDSV41.Cache

open List Lib State
open Option (eq_none_iff_forall_ne_some isSome_iff_exists isSome_map map_eq_some_iff)
open OrderedTable (length_modify)
open Prod (fst)

variable {Key : Type} [DecidableEq Key] {settings : Settings} {state next : State Key}
  {entries left : OrderedTable Key Entry} {record : Consumer Key} {consumer lease token : Token}
  {key : Key} {item entry : Entry}

/-! ### The invariant -/

def bytesAt (entries : OrderedTable Key Entry) (key : Key) : ℕ :=
  (entries.get? key).elim 0 Entry.bytes

/-- The leases of the consumers and of the entries, the bounds, and the identities in use. -/
structure Sound (settings : Settings) (state : State Key) : Prop where
  within : ∀ tier, used state.entries tier ≤ settings.capacity tier
  count : state.entries.length ≤ settings.maxEntries
  recorded : ∀ token record, state.consumers.get? token = some record →
    ∀ lease key, record.leases.get? lease = some key →
      ∃ entry, state.entries.get? key = some entry ∧ entry.isReady = true ∧ lease ∈ entry.leases
  owned : ∀ key entry, state.entries.get? key = some entry → ∀ lease ∈ entry.leases,
    ∃ token record, state.consumers.get? token = some record ∧ record.leases.get? lease = some key
  single : ∀ first record second other lease, state.consumers.get? first = some record →
    state.consumers.get? second = some other → (record.leases.get? lease).isSome = true →
    (other.leases.get? lease).isSome = true → first = second
  once : ∀ key entry, state.entries.get? key = some entry → entry.leases.Nodup
  producers : ∀ key entry, state.entries.get? key = some entry → entry.isReady = false →
    (state.consumers.get? entry.producer).isSome = true
  limits : ∀ token record, state.consumers.get? token = some record →
    record.leases.total (bytesAt state.entries) ≤ record.copyLimit
  consumersIssued : ∀ token record, state.consumers.get? token = some record → token ∈ state.issued
  leasesIssued : ∀ token record, state.consumers.get? token = some record →
    ∀ lease key, record.leases.get? lease = some key → lease ∈ state.issued

/-- What the entries with a lease are after a step. -/
def Outlive (before after : OrderedTable Key Entry) : Prop :=
  ∀ key entry, before.get? key = some entry → entry.leases ≠ [] →
    ∃ kept, after.get? key = some kept ∧ kept.isReady = true ∧ kept.bytes = entry.bytes

section

variable (sound : Sound settings state)
include sound

theorem Sound.total_bytes (known : state.consumers.get? token = some record)
    (same : ∀ key entry, state.entries.get? key = some entry → entry.leases ≠ [] → bytesAt left key =
      entry.bytes) :
    record.leases.total (bytesAt left) = record.leases.total (bytesAt state.entries) := by
  refine OrderedTable.total_congr fun lease key held => ?_
  obtain ⟨entry, there, -, mem⟩ := sound.recorded token record known lease key held
  rw [same key entry there (ne_nil_of_mem mem), bytesAt, there]
  rfl

theorem Sound.ready (there : state.entries.get? key = some entry) (held : entry.leases ≠ []) :
    entry.isReady = true := by
  obtain ⟨lease, mem⟩ := exists_mem_of_ne_nil _ held
  obtain ⟨token, record, known, names⟩ := sound.owned key entry there lease mem
  obtain ⟨other, found, ready, -⟩ := sound.recorded token record known lease key names
  rw [there] at found
  cases found
  exact ready

theorem Sound.outlive : Outlive state.entries state.entries :=
  fun _ entry there held => ⟨entry, there, sound.ready there held, rfl⟩

theorem Sound.copied (known : state.consumers.get? token = some record) :
    copied state.entries record = some (record.leases.total (bytesAt state.entries)) := by
  have present : ∀ key ∈ record.leases.values, ∃ entry, state.entries.get? key = some entry := by
    intro key mem
    obtain ⟨⟨lease, _⟩, there, rfl⟩ := mem_map.mp mem
    obtain ⟨entry, found, -⟩ := sound.recorded token record known lease _ (OrderedTable.mem_items.mp there)
    exact ⟨entry, found⟩
  unfold Cache.copied OrderedTable.total
  generalize record.leases.values = keys at present
  induction keys with
  | nil => rfl
  | cons key rest follows =>
    obtain ⟨entry, found⟩ := present key mem_cons_self
    have others := follows fun other mem => present other (mem_cons_of_mem key mem)
    rw [map_eq_some_iff] at others
    obtain ⟨held, read, sum⟩ := others
    rw [mapM_cons, found, read]
    show some ((entry.bytes :: held.map Entry.bytes).sum) = _
    rw [map_cons, sum_cons, sum_cons, sum, bytesAt, found]
    rfl

end

/-! ### Entries are taken out -/

/-- Some entries are taken out, each of them one that may go. -/
structure Fewer (gone : Entry → Prop) (before after : OrderedTable Key Entry) : Prop where
  sub : ∀ key entry, after.get? key = some entry → before.get? key = some entry
  kept : ∀ key entry, before.get? key = some entry → after.get? key = some entry ∨ gone entry
  used_le : ∀ tier, used after tier ≤ used before tier
  length_le : after.length ≤ before.length

theorem Fewer.refl (gone : Entry → Prop) (entries : OrderedTable Key Entry) :
    Fewer gone entries entries :=
  ⟨fun _ _ there => there, fun _ _ there => Or.inl there, fun _ => Nat.le_refl _, Nat.le_refl _⟩

theorem Fewer.trans (first : Fewer gone entries left)
    (second : Fewer gone left last) : Fewer gone entries last where
  sub key entry there := first.sub key entry (second.sub key entry there)
  kept key entry there := by
    rcases first.kept key entry there with stays | goes
    · exact second.kept key entry stays
    · exact Or.inr goes
  used_le tier := Nat.le_trans (second.used_le tier) (first.used_le tier)
  length_le := Nat.le_trans second.length_le first.length_le

theorem Fewer.remove (may : ∀ entry, entries.get? key = some entry → gone entry) :
    Fewer gone entries (entries.remove key) where
  sub other entry there := by
    rw [OrderedTable.get?_remove] at there
    split_ifs at there
    exact there
  kept other entry there := by
    by_cases same : other = key
    · subst same
      exact Or.inr (may entry there)
    · exact Or.inl ((OrderedTable.get?_remove_ne same).trans there)
  used_le tier := OrderedTable.total_remove_le
  length_le := OrderedTable.length_remove_le

/-- A listing that the table still agrees with. -/
def Lists (listing : List (Key × Entry)) (entries : OrderedTable Key Entry) : Prop :=
  ∀ key item, (key, item) ∈ listing → ∀ entry, entries.get? key = some entry → entry = item

theorem lists_items (entries : OrderedTable Key Entry) : Lists entries.items entries := by
  intro key item mem entry there
  rw [OrderedTable.mem_items.mp mem] at there
  exact (Option.some.inj there).symm

variable {listing : List (Key × Entry)}

theorem Lists.fewer (lists : Lists listing entries) (fewer : Fewer gone entries left) :
    Lists listing left :=
  fun key item mem entry there => lists key item mem entry (fewer.sub key entry there)

theorem Lists.tail (lists : Lists ((key, item) :: listing) entries) : Lists listing entries :=
  fun other found mem => lists other found (mem_cons_of_mem _ mem)

variable {size : ℕ} {tier : Tier}

theorem evict_fewer (lists : Lists listing entries) :
    Fewer (·.leases = []) entries (evict settings tier size listing entries).2 := by
  induction listing generalizing entries with
  | nil => exact Fewer.refl _ entries
  | cons first rest known =>
    obtain ⟨key, item⟩ := first
    unfold evict
    split_ifs with fits evictable
    · exact Fewer.refl _ entries
    · have removed : Fewer (·.leases = []) entries (entries.remove key) := by
        refine Fewer.remove fun entry there => ?_
        rw [lists key item List.mem_cons_self entry there]
        simp only [Entry.evictable, Bool.and_eq_true, List.isEmpty_iff] at evictable
        exact evictable.2
      exact removed.trans (known (lists.tail.fewer removed))
    · exact known lists.tail

theorem evict_fits (granted : (evict settings tier size listing entries).1 = true) :
    Fits settings (evict settings tier size listing entries).2 tier size := by
  induction listing generalizing entries with
  | nil => exact of_decide_eq_true granted
  | cons first rest known =>
    unfold evict at granted ⊢
    split_ifs at granted ⊢ with fits
    · exact fits
    all_goals exact known granted

theorem space_fewer (tier : Tier) (size : ℕ) :
    Fewer (·.leases = []) entries (space settings tier size entries).2 := by
  unfold space
  split_ifs
  · exact Fewer.refl _ entries
  · exact evict_fewer (lists_items entries)

theorem space_fits (granted : (space settings tier size entries).1 = true) :
    Fits settings (space settings tier size entries).2 tier size := by
  unfold space at granted ⊢
  split_ifs at granted ⊢
  exact evict_fits granted

theorem findTier_fewer (size : ℕ) (tiers : List Tier) :
    Fewer (·.leases = []) entries (findTier settings size tiers entries).2 := by
  induction tiers generalizing entries with
  | nil => exact Fewer.refl _ entries
  | cons tier rest known =>
    unfold findTier
    have step : Fewer (·.leases = []) entries (space settings tier size entries).2 :=
      space_fewer tier size
    split_ifs
    · exact known
    · split
      case h_1 left found =>
        rw [found] at step
        exact step
      case h_2 left found =>
        rw [found] at step
        exact step.trans known

theorem findTier_fits {tiers : List Tier} (found : (findTier settings size tiers entries).1 = some tier) :
    Fits settings (findTier settings size tiers entries).2 tier size := by
  induction tiers generalizing entries with
  | nil => cases found
  | cons first rest known =>
    unfold findTier at found ⊢
    split_ifs at found ⊢
    · exact known found
    · split at found
      case h_1 left granted =>
        cases found
        have fits := space_fits (congrArg fst granted)
        rw [granted] at fits
        exact fits
      case h_2 left refused => exact known found

theorem dropGenerated_fewer (lists : Lists listing entries) :
    Fewer (·.generatedBy consumer = true) entries (dropGenerated consumer listing entries) := by
  induction listing generalizing entries with
  | nil => exact Fewer.refl _ entries
  | cons first rest known =>
    obtain ⟨key, item⟩ := first
    unfold dropGenerated
    split_ifs with generated
    · have removed : Fewer (·.generatedBy consumer = true) entries (entries.remove key) :=
        Fewer.remove fun entry there => by
          rw [lists key item mem_cons_self entry there]
          exact generated
      exact removed.trans (known (lists.tail.fewer removed))
    · exact known lists.tail

section

variable (sound : Sound settings state)
include sound

theorem Sound.fewer (fewer : Fewer gone state.entries left)
    (spares : ∀ key entry, state.entries.get? key = some entry → gone entry → entry.leases = []) :
    Sound settings { state with entries := left } := by
  have stays : ∀ key entry, state.entries.get? key = some entry → entry.leases ≠ [] →
      left.get? key = some entry := fun key entry there held =>
    (fewer.kept key entry there).resolve_right fun goes => held (spares key entry there goes)
  refine ⟨fun tier => Nat.le_trans (fewer.used_le tier) (sound.within tier),
    Nat.le_trans fewer.length_le sound.count, fun token record known lease key names => ?_,
    fun key entry there => sound.owned key entry (fewer.sub key entry there), sound.single,
    fun key entry there => sound.once key entry (fewer.sub key entry there),
    fun key entry there => sound.producers key entry (fewer.sub key entry there),
    fun token record known => ?_, sound.consumersIssued, sound.leasesIssued⟩
  · obtain ⟨entry, there, ready, mem⟩ := sound.recorded token record known lease key names
    exact ⟨entry, stays key entry there (ne_nil_of_mem mem), ready, mem⟩
  · have same : record.leases.total (bytesAt left) = record.leases.total (bytesAt state.entries) :=
      sound.total_bytes known fun key entry there held => by
        rw [bytesAt, stays key entry there held]
        rfl
    rw [same]
    exact sound.limits token record known

theorem Sound.fewer_outlive (fewer : Fewer gone state.entries left)
    (spares : ∀ key entry, state.entries.get? key = some entry → gone entry → entry.leases = []) :
    Outlive state.entries left := fun key entry there held =>
  ⟨entry, (fewer.kept key entry there).resolve_right fun goes => held (spares key entry there goes),
    sound.ready there held, rfl⟩

theorem Sound.spares_generated (key : Key) (entry : Entry) (there : state.entries.get? key = some entry)
    (generated : entry.generatedBy consumer = true) :
    entry.leases = [] := by
  by_contra held
  have ready := sound.ready there held
  simp [Entry.generatedBy, ready] at generated

end

/-! ### Entries are changed -/

theorem bytesAt_modify {change : Entry → Entry} (same : ∀ entry, (change entry).bytes = entry.bytes) :
    bytesAt (entries.modify key change) = bytesAt entries := by
  funext other
  unfold bytesAt
  rw [OrderedTable.get?_modify]
  cases entries.get? other with
  | none => rfl
  | some entry =>
    split_ifs
    · exact same entry
    · rfl

theorem used_modify {change : Entry → Entry}
    (same : ∀ entry, (change entry).bytes = entry.bytes ∧ (change entry).tier = entry.tier) :
    used (entries.modify key change) tier = used entries tier :=
  OrderedTable.total_modify_same fun entry => by rw [(same entry).1, (same entry).2]

theorem Sound.begin (sound : Sound settings state) (fresh : token ∉ state.issued) (limit : ℕ) :
    Sound settings { state with
      consumers := state.consumers.push token ⟨limit, ∅⟩
      issued := token :: state.issued } := by
  -- A record of the new table is the new one, without leases, or was there (`push_cases`).
  have absent : state.consumers.get? token = none := eq_none_iff_forall_ne_some.mpr fun record known =>
    fresh (sound.consumersIssued token record known)
  refine ⟨sound.within, sound.count, fun other record known lease key names => ?_,
    fun key entry there lease mem => ?_, fun first record second other lease one two here also => ?_,
    sound.once, fun key entry there generates => ?_, fun other record known => ?_,
    fun other record known => ?_, fun other record known lease key names => ?_⟩
  · rcases OrderedTable.push_cases known with ⟨-, rfl⟩ | ⟨-, before⟩
    · cases names
    · exact sound.recorded other record before lease key names
  · obtain ⟨other, record, known, names⟩ := sound.owned key entry there lease mem
    exact ⟨other, record, OrderedTable.get?_push_keeps absent known, names⟩
  · rcases OrderedTable.push_cases one with ⟨-, rfl⟩ | ⟨-, one⟩
    · cases here
    · rcases OrderedTable.push_cases two with ⟨-, rfl⟩ | ⟨-, two⟩
      · cases also
      · exact sound.single first record second other lease one two here also
  · obtain ⟨record, known⟩ := isSome_iff_exists.mp (sound.producers key entry there generates)
    exact isSome_iff_exists.mpr ⟨record, OrderedTable.get?_push_keeps absent known⟩
  · rcases OrderedTable.push_cases known with ⟨-, rfl⟩ | ⟨-, before⟩
    · exact Nat.zero_le limit
    · exact sound.limits other record before
  · rcases OrderedTable.push_cases known with ⟨rfl, -⟩ | ⟨-, before⟩
    · exact mem_cons_self
    · exact mem_cons_of_mem _ (sound.consumersIssued other record before)
  · rcases OrderedTable.push_cases known with ⟨-, rfl⟩ | ⟨-, before⟩
    · cases names
    · exact mem_cons_of_mem _ (sound.leasesIssued other record before lease key names)

def Entry.lend (entry : Entry) (lease : Token) : Entry := { entry with leases := lease :: entry.leases }

theorem Sound.hold (sound : Sound settings state) (known : state.consumers.get? consumer = some record)
    (there : state.entries.get? key = some item) (ready : item.isReady = true)
    (room : record.leases.total (bytesAt state.entries) + item.bytes ≤ record.copyLimit)
    (fresh : lease ∉ state.issued) :
    Sound settings { state with
      consumers := state.consumers.modify consumer (·.hold lease key)
      entries := (state.entries.modify key (·.lend lease)).moveToEnd key
      issued := lease :: state.issued } := by
  have unused : ∀ other found, state.consumers.get? other = some found →
      found.leases.get? lease = none := by
    intro other found before
    rw [eq_none_iff_forall_ne_some]
    intro name names
    exact fresh (sound.leasesIssued other found before lease name names)
  have lookup : ∀ name, ((state.entries.modify key (·.lend lease)).moveToEnd key).get? name
      = (state.entries.get? name).map fun entry => if name = key then entry.lend lease else entry := by
    intro name
    rw [OrderedTable.get?_moveToEnd, OrderedTable.get?_modify]
  have bytes : bytesAt ((state.entries.modify key (·.lend lease)).moveToEnd key)
      = bytesAt state.entries := by
    have changed : bytesAt (state.entries.modify key (·.lend lease)) = bytesAt state.entries :=
      bytesAt_modify fun _ => rfl
    rw [← changed]
    funext name
    unfold bytesAt
    rw [OrderedTable.get?_moveToEnd]
  -- The new lease is the one of the consumer, and every other lease was there.
  have split : ∀ other found other' name,
      (state.consumers.modify consumer (·.hold lease key)).get? other = some found →
      found.leases.get? other' = some name →
      (other = consumer ∧ other' = lease ∧ name = key) ∨
        (other' ≠ lease ∧ ∃ before, state.consumers.get? other = some before ∧
          before.leases.get? other' = some name) := by
    intro other found other' name after names
    obtain ⟨before, earlier, rfl⟩ := OrderedTable.get?_modify_some.mp after
    have old : before.leases.get? other' = some name → other' ≠ lease := by
      rintro held rfl
      rw [unused other before earlier] at held
      cases held
    split_ifs at names with here
    · rcases OrderedTable.push_cases names with ⟨same, name⟩ | ⟨same, names⟩
      · exact Or.inl ⟨here, same, name⟩
      · exact Or.inr ⟨same, before, earlier, names⟩
    · exact Or.inr ⟨old names, before, earlier, names⟩
  have lent : ∀ other before other' name, state.consumers.get? other = some before →
      before.leases.get? other' = some name →
      ∃ found, (state.consumers.modify consumer (·.hold lease key)).get? other = some found ∧
        found.leases.get? other' = some name := by
    intro other before other' name earlier names
    refine ⟨_, OrderedTable.get?_modify_some.mpr ⟨before, earlier, rfl⟩, ?_⟩
    split_ifs
    · exact OrderedTable.get?_push_keeps (unused other before earlier) names
    · exact names
  refine ⟨fun tier => ?_, ?_, fun other found after other' name names => ?_,
    fun name entry after other' mem => ?_,
    fun first found second other other' one two here also => ?_, fun name entry after => ?_,
    fun name entry after generates => ?_, fun other found after => ?_, fun other found after => ?_,
    fun other found after other' name names => ?_⟩
  · refine le_of_eq_of_le ?_ (sound.within tier)
    exact OrderedTable.total_moveToEnd.trans (used_modify fun _ => ⟨rfl, rfl⟩)
  · refine le_of_eq_of_le ?_ sound.count
    exact OrderedTable.length_moveToEnd.trans length_modify
  · rcases split other found other' name after names with ⟨-, rfl, rfl⟩ | ⟨-, before, earlier, names⟩
    · refine ⟨item.lend other', ?_, ready, mem_cons_self⟩
      rw [lookup, there]
      simp
    · obtain ⟨entry, at', ready, mem⟩ := sound.recorded other before earlier other' name names
      refine ⟨if name = key then entry.lend lease else entry, by rw [lookup, at']; rfl, ?_, ?_⟩
      · split_ifs <;> exact ready
      · split_ifs
        · exact mem_cons_of_mem _ mem
        · exact mem
  · rw [lookup, map_eq_some_iff] at after
    obtain ⟨entry, at', rfl⟩ := after
    have old : other' ∈ entry.leases → ∃ token record,
        (state.consumers.modify consumer (·.hold lease key)).get? token = some record ∧
          record.leases.get? other' = some name := by
      intro mem
      obtain ⟨token, before, earlier, names⟩ := sound.owned name entry at' other' mem
      obtain ⟨found, after, names⟩ := lent token before other' name earlier names
      exact ⟨token, found, after, names⟩
    split_ifs at mem with same
    · rcases mem_cons.mp mem with rfl | mem
      · subst same
        refine ⟨consumer, record.hold other' name, ?_, OrderedTable.get?_push_self⟩
        exact OrderedTable.get?_modify_some.mpr ⟨record, known, (if_pos rfl).symm⟩
      · exact old mem
    · exact old mem
  · obtain ⟨name, names⟩ := isSome_iff_exists.mp here
    obtain ⟨name', names'⟩ := isSome_iff_exists.mp also
    rcases split first found other' name one names with
      ⟨rfl, rfl, -⟩ | ⟨differs, before, earlier, names⟩
    · rcases split second other other' name' two names' with ⟨rfl, -, -⟩ | ⟨differs, -⟩
      · rfl
      · exact absurd rfl differs
    · rcases split second other other' name' two names' with
        ⟨-, rfl, -⟩ | ⟨-, before', earlier', names'⟩
      · exact absurd rfl differs
      · exact sound.single first before second before' other' earlier earlier'
          (isSome_iff_exists.mpr ⟨name, names⟩) (isSome_iff_exists.mpr ⟨name', names'⟩)
  · rw [lookup, map_eq_some_iff] at after
    obtain ⟨entry, at', rfl⟩ := after
    split_ifs
    · refine nodup_cons.mpr ⟨fun mem => ?_, sound.once name entry at'⟩
      obtain ⟨token, before, earlier, names⟩ := sound.owned name entry at' lease mem
      rw [unused token before earlier] at names
      cases names
    · exact sound.once name entry at'
  · rw [lookup, map_eq_some_iff] at after
    obtain ⟨entry, at', rfl⟩ := after
    have live : (state.consumers.get? entry.producer).isSome = true := by
      refine sound.producers name entry at' ?_
      split_ifs at generates <;> exact generates
    have same : (if name = key then entry.lend lease else entry).producer = entry.producer := by
      split_ifs <;> rfl
    rw [same, OrderedTable.get?_modify, isSome_map]
    exact live
  · obtain ⟨before, earlier, rfl⟩ := OrderedTable.get?_modify_some.mp after
    rw [bytes]
    split_ifs with same
    · subst same
      rw [known] at earlier
      cases earlier
      have more : (record.leases.push lease key).total (bytesAt state.entries)
          = record.leases.total (bytesAt state.entries) + bytesAt state.entries key :=
        OrderedTable.total_push (unused other record known)
      have here : bytesAt state.entries key = item.bytes := by
        rw [bytesAt, there]
        rfl
      rw [here] at more
      exact le_of_eq_of_le more room
    · exact sound.limits other before earlier
  · obtain ⟨before, earlier, -⟩ := OrderedTable.get?_modify_some.mp after
    exact mem_cons_of_mem _ (sound.consumersIssued other before earlier)
  · rcases split other found other' name after names with ⟨-, rfl, -⟩ | ⟨-, before, earlier, names⟩
    · exact mem_cons_self
    · exact mem_cons_of_mem _ (sound.leasesIssued other before earlier other' name names)

theorem Sound.place (sound : Sound settings state)
    (live : (state.consumers.get? consumer).isSome = true) (absent : state.entries.get? key = none)
    (fits : Fits settings state.entries tier size) :
    Sound settings { state with
      entries := state.entries.push key ⟨size, tier, .generating, consumer, []⟩ } := by
  refine ⟨fun other => ?_, ?_, fun token record known lease name names => ?_,
    fun name entry there => ?_, sound.single, fun name entry there => ?_,
    fun name entry there generates => ?_, fun token record known => ?_, sound.consumersIssued,
    sound.leasesIssued⟩
  · refine le_of_eq_of_le (OrderedTable.total_push absent) ?_
    by_cases same : tier = other
    · subst same
      rw [if_pos rfl]
      exact fits.1
    · rw [if_neg same]
      exact sound.within other
  · refine le_of_eq_of_le (OrderedTable.length_push absent) ?_
    exact fits.2
  · obtain ⟨entry, there, ready, mem⟩ := sound.recorded token record known lease name names
    exact ⟨entry, OrderedTable.get?_push_keeps absent there, ready, mem⟩
  · rcases OrderedTable.push_cases there with ⟨-, rfl⟩ | ⟨-, before⟩
    · exact fun lease mem => absurd mem not_mem_nil
    · exact sound.owned name entry before
  · rcases OrderedTable.push_cases there with ⟨-, rfl⟩ | ⟨-, before⟩
    · exact nodup_nil
    · exact sound.once name entry before
  · rcases OrderedTable.push_cases there with ⟨-, rfl⟩ | ⟨-, before⟩
    · exact live
    · exact sound.producers name entry before generates
  · have same : record.leases.total (bytesAt (state.entries.push key ⟨size, tier, .generating, consumer, []⟩))
        = record.leases.total (bytesAt state.entries) :=
      sound.total_bytes known fun name entry there _ => by
        rw [bytesAt, OrderedTable.get?_push_keeps absent there]
        rfl
    rw [same]
    exact sound.limits token record known

def Entry.publish (entry : Entry) (metadata : Metadata) (bytes : ℕ) : Entry :=
  { entry with bytes := bytes, stage := .ready metadata }

variable {metadata : Metadata}

theorem Sound.publish (sound : Sound settings state) {bytes : ℕ}
    (there : state.entries.get? key = some item) (generates : item.isReady = false)
    (less : bytes ≤ item.bytes) :
    Sound settings { state with entries := state.entries.modify key (·.publish metadata bytes) } := by
  -- The entry has no lease, so nobody notices that it changes.
  have unleased : item.leases = [] := by
    by_contra held
    rw [sound.ready there held] at generates
    cases generates
  have stays : ∀ name entry, state.entries.get? name = some entry → entry.leases ≠ [] →
      (state.entries.modify key (·.publish metadata bytes)).get? name = some entry := by
    intro name entry before held
    refine (OrderedTable.get?_modify_ne ?_).trans before
    rintro rfl
    rw [there] at before
    cases before
    exact held unleased
  refine ⟨fun tier => ?_, le_of_eq_of_le length_modify sound.count,
    fun token record known lease name names => ?_, fun name entry after => ?_, sound.single,
    fun name entry after => ?_, fun name entry after still => ?_, fun token record known => ?_,
    sound.consumersIssued, sound.leasesIssued⟩
  · have whole : used (state.entries.modify key (·.publish metadata bytes)) tier
          + (if item.tier = tier then item.bytes else 0)
        = used state.entries tier + (if item.tier = tier then bytes else 0) :=
      OrderedTable.total_modify there
    have before := sound.within tier
    show used (state.entries.modify key (·.publish metadata bytes)) tier ≤ _
    split_ifs at whole
    · omega
    · omega
  · obtain ⟨entry, before, ready, mem⟩ := sound.recorded token record known lease name names
    exact ⟨entry, stays name entry before (ne_nil_of_mem mem), ready, mem⟩
  · obtain ⟨entry, before, rfl⟩ := OrderedTable.get?_modify_some.mp after
    split_ifs
    all_goals exact sound.owned name entry before
  · obtain ⟨entry, before, rfl⟩ := OrderedTable.get?_modify_some.mp after
    split_ifs
    all_goals exact sound.once name entry before
  · obtain ⟨entry, before, rfl⟩ := OrderedTable.get?_modify_some.mp after
    split_ifs at still ⊢
    · cases still
    · exact sound.producers name entry before still
  · have same : record.leases.total (bytesAt (state.entries.modify key (·.publish metadata bytes)))
        = record.leases.total (bytesAt state.entries) :=
      sound.total_bytes known fun name entry before held => by
        rw [bytesAt, stays name entry before held]
        rfl
    rw [same]
    exact sound.limits token record known

/-! ### Leases are given back -/

theorem get?_letGo {name : Key} {entry : Entry} :
    (state.letGo consumer record lease).entries.get? name = some entry ↔
      ∃ before, state.entries.get? name = some before ∧
        entry = if record.leases.get? lease = some name then
          { before with leases := before.leases.erase lease } else before := by
  unfold letGo
  cases held : record.leases.get? lease with
  | none =>
    exact ⟨fun there => ⟨entry, there, rfl⟩, fun ⟨_, there, same⟩ => same ▸ there⟩
  | some key =>
    rw [OrderedTable.get?_modify_some]
    simp only [Option.some.injEq, eq_comm]

theorem letGo_frame : bytesAt (state.letGo consumer record lease).entries = bytesAt state.entries ∧
    (∀ tier, used (state.letGo consumer record lease).entries tier = used state.entries tier) ∧
    (state.letGo consumer record lease).entries.length = state.entries.length := by
  unfold letGo
  cases record.leases.get? lease with
  | none => exact ⟨rfl, fun _ => rfl, rfl⟩
  | some key =>
    exact ⟨bytesAt_modify fun _ => rfl, fun _ => used_modify fun _ => ⟨rfl, rfl⟩, length_modify⟩

theorem Sound.letGo (sound : Sound settings state) (known : state.consumers.get? consumer = some record) :
    Sound settings (state.letGo consumer record lease) := by
  obtain ⟨bytes, sums, size⟩ :
      bytesAt (state.letGo consumer record lease).entries = bytesAt state.entries ∧
        (∀ tier, used (state.letGo consumer record lease).entries tier = used state.entries tier) ∧
        (state.letGo consumer record lease).entries.length = state.entries.length := letGo_frame
  -- A lease that is left is another one, and was there.
  have split : ∀ other found other' name,
      (state.consumers.modify consumer (·.drop lease)).get? other = some found →
      found.leases.get? other' = some name →
      (other = consumer → other' ≠ lease) ∧ ∃ before, state.consumers.get? other = some before ∧
        before.leases.get? other' = some name := by
    intro other found other' name after names
    obtain ⟨before, earlier, rfl⟩ := OrderedTable.get?_modify_some.mp after
    split_ifs at names with here
    · have names : (before.leases.remove lease).get? other' = some name := names
      rw [OrderedTable.get?_remove] at names
      split_ifs at names with same
      exact ⟨fun _ => same, before, earlier, names⟩
    · exact ⟨fun same => absurd same here, before, earlier, names⟩
  refine ⟨fun tier => le_of_eq_of_le (sums tier) (sound.within tier), le_of_eq_of_le size sound.count,
    fun other found after other' name names => ?_, fun name entry after other' mem => ?_,
    fun first found second other other' one two here also => ?_, fun name entry after => ?_,
    fun name entry after generates => ?_, fun other found after => ?_, fun other found after => ?_,
    fun other found after other' name names => ?_⟩
  · obtain ⟨differs, before, earlier, held⟩ := split other found other' name after names
    obtain ⟨entry, there, ready, mem⟩ := sound.recorded other before earlier other' name held
    refine ⟨_, get?_letGo.mpr ⟨entry, there, rfl⟩, ?_, ?_⟩
    · split_ifs <;> exact ready
    · split_ifs with mine
      · refine (mem_erase_of_ne ?_).mpr mem
        rintro rfl
        refine differs ?_ rfl
        exact sound.single other before consumer record other' earlier known
          (isSome_iff_exists.mpr ⟨name, held⟩) (isSome_iff_exists.mpr ⟨name, mine⟩)
      · exact mem
  · obtain ⟨entry, there, rfl⟩ := get?_letGo.mp after
    have inside : other' ∈ entry.leases := by
      split_ifs at mem
      · exact mem_of_mem_erase mem
      · exact mem
    obtain ⟨token, before, earlier, names⟩ := sound.owned name entry there other' inside
    have differs : token = consumer → other' ≠ lease := by
      rintro rfl rfl
      rw [known] at earlier
      cases earlier
      rw [if_pos names] at mem
      exact ((sound.once name entry there).mem_erase_iff.mp mem).1 rfl
    refine ⟨token, _, OrderedTable.get?_modify_some.mpr ⟨before, earlier, rfl⟩, ?_⟩
    split_ifs with here
    · exact (OrderedTable.get?_remove_ne (differs here)).trans names
    · exact names
  · obtain ⟨name, names⟩ := isSome_iff_exists.mp here
    obtain ⟨name', names'⟩ := isSome_iff_exists.mp also
    obtain ⟨-, before, earlier, held⟩ := split first found other' name one names
    obtain ⟨-, before', earlier', held'⟩ := split second other other' name' two names'
    exact sound.single first before second before' other' earlier earlier'
      (isSome_iff_exists.mpr ⟨name, held⟩) (isSome_iff_exists.mpr ⟨name', held'⟩)
  · obtain ⟨entry, there, rfl⟩ := get?_letGo.mp after
    split_ifs
    · exact (sound.once name entry there).erase lease
    · exact sound.once name entry there
  · obtain ⟨entry, there, rfl⟩ := get?_letGo.mp after
    have live : (state.consumers.get? entry.producer).isSome = true := by
      refine sound.producers name entry there ?_
      split_ifs at generates <;> exact generates
    refine (congrArg Option.isSome OrderedTable.get?_modify).trans ?_
    rw [isSome_map]
    split_ifs <;> exact live
  · obtain ⟨before, earlier, rfl⟩ := OrderedTable.get?_modify_some.mp after
    have limit := sound.limits other before earlier
    rw [bytes]
    split_ifs
    · exact Nat.le_trans OrderedTable.total_remove_le limit
    · exact limit
  · obtain ⟨before, earlier, -⟩ := OrderedTable.get?_modify_some.mp after
    exact sound.consumersIssued other before earlier
  · obtain ⟨-, before, earlier, held⟩ := split other found other' name after names
    exact sound.leasesIssued other before earlier other' name held

/-- The ready entries are still there and ready. -/
def Stay (before after : OrderedTable Key Entry) : Prop :=
  ∀ key entry, before.get? key = some entry → entry.isReady = true →
    ∃ kept, after.get? key = some kept ∧ kept.isReady = true ∧ kept.bytes = entry.bytes

theorem Stay.refl (entries : OrderedTable Key Entry) : Stay entries entries :=
  fun _ entry there ready => ⟨entry, there, ready, rfl⟩

theorem Stay.trans (first : Stay entries left) (second : Stay left last) :
    Stay entries last := by
  intro key entry there ready
  obtain ⟨middle, kept, still, same⟩ := first key entry there ready
  obtain ⟨found, after, ready', same'⟩ := second key middle kept still
  exact ⟨found, after, ready', same'.trans same⟩

theorem Sound.outlives (sound : Sound settings state) (stay : Stay state.entries left) :
    Outlive state.entries left :=
  fun key entry there held => stay key entry there (sound.ready there held)

theorem letGo_stay : Stay state.entries (state.letGo consumer record lease).entries := by
  intro key entry there ready
  refine ⟨_, get?_letGo.mpr ⟨entry, there, rfl⟩, ?_, ?_⟩
  · split_ifs <;> exact ready
  · split_ifs <;> rfl

/-- The loop of `end` over the leases: the consumer stays, and has lost them. -/
theorem releases (sound : Sound settings state) (known : state.consumers.get? consumer = some record)
    (leases : List Token) :
    let after := leases.foldl (fun state => state.release consumer) state
    Sound settings after ∧ Stay state.entries after.entries ∧
      ∃ found, after.consumers.get? consumer = some found ∧
        ∀ lease key, found.leases.get? lease = some key →
          lease ∉ leases ∧ record.leases.get? lease = some key := by
  induction leases generalizing state record with
  | nil => exact ⟨sound, Stay.refl _, record, known, fun _ _ names => ⟨List.not_mem_nil, names⟩⟩
  | cons lease rest follows =>
    have released : state.release consumer lease = state.letGo consumer record lease := by
      unfold release
      rw [known]
    have still : (state.letGo consumer record lease).consumers.get? consumer = some (record.drop lease) :=
      OrderedTable.get?_modify_some.mpr ⟨record, known, (if_pos rfl).symm⟩
    obtain ⟨sound', stay, found, there, lost⟩ := follows (sound.letGo known) still
    rw [foldl_cons, released]
    refine ⟨sound', letGo_stay.trans stay, found, there, fun other key names => ?_⟩
    obtain ⟨later, names⟩ := lost other key names
    have names : (record.leases.remove lease).get? other = some key := names
    rw [OrderedTable.get?_remove] at names
    split_ifs at names with same
    exact ⟨fun mem => (mem_cons.mp mem).elim same later, names⟩

theorem dropGenerated_none (lists : Lists listing entries) (mem : (key, item) ∈ listing)
    (generated : item.generatedBy consumer = true) :
    (dropGenerated consumer listing entries).get? key = none := by
  induction listing generalizing entries with
  | nil => cases mem
  | cons first rest known =>
    obtain ⟨name, here⟩ := first
    unfold dropGenerated
    rcases mem_cons.mp mem with same | later
    · obtain ⟨rfl, rfl⟩ := Prod.mk.inj same
      rw [if_pos generated, eq_none_iff_forall_ne_some]
      intro entry there
      have removed : Fewer (·.generatedBy consumer = true) entries (entries.remove key) :=
        Fewer.remove fun entry there => by
          rw [lists key item mem_cons_self entry there]
          exact generated
      have before := (dropGenerated_fewer (lists.tail.fewer removed)).sub key entry there
      rw [OrderedTable.get?_remove_self] at before
      cases before
    · split_ifs with mine
      · have removed : Fewer (·.generatedBy consumer = true) entries (entries.remove name) :=
          Fewer.remove fun entry there => by
            rw [lists name here mem_cons_self entry there]
            exact mine
        exact known (lists.tail.fewer removed) later
      · exact known lists.tail later

section

variable (sound : Sound settings state) (known : state.consumers.get? consumer = some record)
include sound known

/-- A consumer without leases that generates nothing is removed. -/
theorem Sound.retire (free : ∀ lease, record.leases.get? lease = none)
    (idle : ∀ key entry, state.entries.get? key = some entry → entry.generatedBy consumer = false) :
    Sound settings { state with consumers := state.consumers.remove consumer } := by
  have split : ∀ other found, (state.consumers.remove consumer).get? other = some found →
      state.consumers.get? other = some found := by
    intro other found after
    rw [OrderedTable.get?_remove] at after
    split_ifs at after
    exact after
  refine ⟨sound.within, sound.count, fun other found after => sound.recorded other found (split _ _ after),
    fun key entry there lease mem => ?_, fun first found second other lease one two =>
      sound.single first found second other lease (split _ _ one) (split _ _ two), sound.once,
    fun key entry there generates => ?_, fun other found after => sound.limits other found (split _ _ after),
    fun other found after => sound.consumersIssued other found (split _ _ after),
    fun other found after => sound.leasesIssued other found (split _ _ after)⟩
  · obtain ⟨token, found, before, names⟩ := sound.owned key entry there lease mem
    refine ⟨token, found, (OrderedTable.get?_remove_ne ?_).trans before, names⟩
    rintro rfl
    rw [known] at before
    cases before
    rw [free lease] at names
    cases names
  · have live := sound.producers key entry there generates
    have differs : entry.producer ≠ consumer := by
      rintro same
      have generated := idle key entry there
      simp [Entry.generatedBy, generates, same] at generated
    rw [OrderedTable.get?_remove_ne differs]
    exact live

theorem Sound.end : Sound settings (state.end consumer record) ∧
      Outlive state.entries (state.end consumer record).entries := by
  obtain ⟨released, stay, found, there, lost⟩ :=
    releases sound known (record.leases.items.map fst)
  unfold State.end
  generalize (record.leases.items.map fst).foldl
    (fun state => state.release consumer) state = left at released stay there ⊢
  have free : ∀ lease, found.leases.get? lease = none := by
    intro lease
    rw [eq_none_iff_forall_ne_some]
    intro key names
    obtain ⟨absent, before⟩ := lost lease key names
    exact absent (mem_map.mpr ⟨_, OrderedTable.mem_items.mpr before, rfl⟩)
  have fewer : Fewer (·.generatedBy consumer = true) left.entries
      (dropGenerated consumer left.entries.items left.entries) :=
    dropGenerated_fewer (lists_items left.entries)
  refine ⟨(released.fewer fewer released.spares_generated).retire there free
    fun key entry after => ?_, sound.outlives (stay.trans fun key entry before ready => ?_)⟩
  · rw [← Bool.not_eq_true]
    intro generated
    have member := OrderedTable.mem_items.mpr (fewer.sub key entry after)
    have gone := dropGenerated_none (lists_items left.entries) member generated
    rw [gone] at after
    cases after
  · refine ⟨entry, (fewer.kept key entry before).resolve_right fun generated => ?_, ready, rfl⟩
    simp [Entry.generatedBy, ready] at generated

end

/-! ### Requests -/

/-- What a request makes of a sound state. -/
def Serves (settings : Settings) (before after : State Key) : Prop :=
  Sound settings after ∧ Outlive before.entries after.entries

section

variable (sound : Sound settings state)
include sound

theorem Sound.unchanged : Serves settings state state :=
  ⟨sound, sound.outlive⟩

theorem Sound.aside (metrics : Metrics) (waiting : List (Waiter Key)) :
    Sound settings { state with metrics := metrics, waiting := waiting } :=
  ⟨sound.within, sound.count, sound.recorded, sound.owned, sound.single, sound.once, sound.producers,
    sound.limits, sound.consumersIssued, sound.leasesIssued⟩

theorem hit_serves (known : state.consumers.get? consumer = some record)
    (there : state.entries.get? key = some item) (ready : item.isReady = true)
    (fresh : lease ∉ state.issued) :
    Serves settings state (state.hit consumer record key item metadata lease).1 := by
  unfold hit
  rw [sound.copied known]
  show Serves settings state (if _ then _ else _ : State Key × Answer Key).1
  by_cases exceeds : record.copyLimit < record.leases.total (bytesAt state.entries) + item.bytes
  · rw [if_pos exceeds]
    exact sound.unchanged
  · rw [if_neg exceeds]
    have lent := sound.hold known there ready (Nat.le_of_not_lt exceeds) fresh
    have outlives : Outlive state.entries ((state.entries.modify key (·.lend lease)).moveToEnd key) := by
      intro name entry before held
      have still : entry.isReady = true := sound.ready before held
      refine ⟨if name = key then entry.lend lease else entry, ?_, ?_, ?_⟩
      · refine OrderedTable.get?_moveToEnd.trans ?_
        exact OrderedTable.get?_modify_some.mpr ⟨entry, before, rfl⟩
      · split_ifs <;> exact still
      · split_ifs <;> rfl
    split
    · exact ⟨lent, outlives⟩
    · exact ⟨lent.aside _ _, outlives⟩

theorem miss_serves {opens : Bool} (live : (state.consumers.get? consumer).isSome = true)
    (absent : state.entries.get? key = none) :
    Serves settings state (state.miss settings consumer key size opens).1 := by
  have fewer : Fewer (·.leases = []) state.entries
      (findTier settings size [.ram, .disk] state.entries).2 := findTier_fewer size _
  have spares : ∀ key entry, state.entries.get? key = some entry → entry.leases = [] →
      entry.leases = [] := fun _ _ _ free => free
  unfold miss
  split
  case h_1 left found =>
    rw [found] at fewer
    exact ⟨sound.fewer fewer spares, sound.fewer_outlive fewer spares⟩
  case h_2 tier left found =>
    have fits : Fits settings (findTier settings size [.ram, .disk] state.entries).2 tier size :=
      findTier_fits (congrArg fst found)
    rw [found] at fewer fits
    have gone : left.get? key = none := by
      rw [eq_none_iff_forall_ne_some]
      intro entry there
      rw [fewer.sub key entry there] at absent
      cases absent
    have fewer' : Sound settings { state with entries := left } := sound.fewer fewer spares
    split_ifs
    · refine ⟨fewer'.place live gone fits, fun name entry there held => ?_⟩
      obtain ⟨kept, after, ready, same⟩ := sound.fewer_outlive fewer spares name entry there held
      refine ⟨kept, (OrderedTable.get?_push_ne ?_).trans after, ready, same⟩
      rintro rfl
      rw [gone] at after
      cases after
    · exact ⟨fewer', sound.fewer_outlive fewer spares⟩

theorem look_serves {choice : Choice} (fresh : choice.lease ∉ state.issued) :
    Serves settings state (state.look settings consumer key size choice).1 := by
  unfold look
  split
  case h_1 item there =>
    split
    case h_1 generating =>
      split_ifs
      · exact sound.unchanged
      · exact sound.unchanged
      · exact ⟨sound.aside _ _, sound.outlive⟩
    case h_2 metadata published =>
      have ready : item.isReady = true := by
        unfold Entry.isReady
        rw [published]
      split
      case h_1 => exact sound.unchanged
      case h_2 record known => exact hit_serves sound known there ready fresh
  case h_2 absent =>
    split
    case h_1 => exact sound.unchanged
    case h_2 record known => exact miss_serves sound (by rw [known]; rfl) absent

theorem publish_serves {size : ℤ} {works : Bool} :
    Serves settings state (state.publish consumer key metadata size works).1 := by
  unfold publish
  split
  case h_1 => exact sound.unchanged
  case h_2 item there =>
    by_cases refused : item.isReady ∨ item.producer ≠ consumer ∨ ¬(0 ≤ size ∧ size ≤ item.bytes)
    · rw [if_pos refused]
      exact sound.unchanged
    · rw [if_neg refused]
      rw [not_or, not_or, not_not, not_not] at refused
      obtain ⟨generates, -, lower, upper⟩ := refused
      rw [Bool.not_eq_true] at generates
      split
      case h_1 => exact sound.unchanged
      case h_2 bytes canonical =>
        by_cases exceeds : metadataLimit < bytes
        · rw [if_pos exceeds]
          exact sound.unchanged
        · rw [if_neg exceeds]
          by_cases fails : ¬works
          · rw [if_pos fails]
            exact sound.unchanged
          · rw [if_neg fails]
            have published : Sound settings { state with
                entries := state.entries.modify key (·.publish metadata size.toNat) } :=
              sound.publish there generates (Int.toNat_le.mpr upper)
            have outlives : Outlive state.entries
                (state.entries.modify key (·.publish metadata size.toNat)) := by
              refine sound.outlives fun name entry before ready => ?_
              refine ⟨entry, (OrderedTable.get?_modify_ne ?_).trans before, ready, rfl⟩
              rintro rfl
              rw [there] at before
              cases before
              rw [generates] at ready
              cases ready
            split
            · exact ⟨published, outlives⟩
            · split
              all_goals exact ⟨published.aside _ _, outlives⟩

theorem abort_serves : Serves settings state (state.abort consumer key) := by
  unfold abort
  split
  case h_1 => exact sound.unchanged
  case h_2 item there =>
    split_ifs with generated
    · have fewer : Fewer (·.generatedBy consumer = true) state.entries (state.entries.remove key) :=
        Fewer.remove fun entry found => by
          rw [there] at found
          cases found
          exact generated
      exact ⟨sound.fewer fewer sound.spares_generated, sound.fewer_outlive fewer sound.spares_generated⟩
    · exact sound.unchanged

theorem clear_serves : Serves settings state state.clear.1 := by
  unfold clear
  split_ifs with idle
  · have none_known : ∀ token, state.consumers.get? token = none := by
      intro token
      rw [eq_none_iff_forall_ne_some]
      intro record known
      have member := OrderedTable.mem_items.mpr known
      rw [isEmpty_iff.mp idle] at member
      cases member
    have unleased : ∀ key entry, state.entries.get? key = some entry → entry.leases = [] := by
      intro key entry there
      by_contra held
      obtain ⟨lease, member⟩ := exists_mem_of_ne_nil _ held
      obtain ⟨token, record, known, -⟩ := sound.owned key entry there lease member
      rw [none_known token] at known
      cases known
    have fewer : Fewer (·.leases = []) state.entries ∅ := by
      refine ⟨fun key entry there => ?_, fun key entry there => Or.inr (unleased key entry there),
        fun tier => Nat.zero_le _, Nat.zero_le _⟩
      cases there
    exact ⟨sound.fewer fewer fun _ _ _ free => free, sound.fewer_outlive fewer fun _ _ _ free => free⟩
  · exact sound.unchanged

theorem live_serves {serve : Consumer Key → State Key × Answer Key}
    (serves : ∀ record, state.consumers.get? consumer = some record → Serves settings state (serve
      record).1) :
    Serves settings state (state.live consumer serve).1 := by
  unfold live
  split
  case h_1 => exact sound.unchanged
  case h_2 record known => exact serves record known

theorem cache_sound_step {action : Action Key} {answer : Answer Key}
    (stepped : state.step settings action = some (next, answer)) : Serves settings state next := by
  unfold step at stepped
  split_ifs at stepped with fresh
  cases action with
  | begin token copyLimit =>
    obtain rfl : (state.begin token copyLimit).1 = next := congrArg fst (Option.some.inj stepped)
    unfold begin
    split_ifs
    · exact sound.unchanged
    · exact ⟨sound.begin (fresh token rfl) _, sound.outlive⟩
  | acquire consumer key size choice =>
    obtain rfl := congrArg fst (Option.some.inj stepped)
    refine live_serves sound fun record known => ?_
    unfold acquire
    split
    case h_1 => exact sound.unchanged
    case h_2 key =>
      split_ifs
      · exact sound.unchanged
      · exact look_serves sound (fresh choice.lease rfl)
  | wake index choice =>
    obtain ⟨waiter, -, looked⟩ := map_eq_some_iff.mp stepped
    obtain rfl := congrArg fst looked
    exact look_serves (sound.aside _ _) (fresh choice.lease rfl)
  | publish consumer key metadata size works =>
    obtain rfl := congrArg fst (Option.some.inj stepped)
    exact live_serves sound fun _ _ => publish_serves sound
  | release consumer lease =>
    obtain rfl := congrArg fst (Option.some.inj stepped)
    exact live_serves sound fun record known => ⟨sound.letGo known, sound.outlives letGo_stay⟩
  | «end» consumer =>
    obtain rfl := congrArg fst (Option.some.inj stepped)
    exact live_serves sound fun record => sound.end
  | abort consumer key =>
    obtain rfl := congrArg fst (Option.some.inj stepped)
    exact live_serves sound fun _ _ => abort_serves sound
  | clear =>
    obtain rfl := congrArg fst (Option.some.inj stepped)
    exact clear_serves sound

end

theorem sound_fresh : Sound settings (⟨∅, ∅, .zero, [], []⟩ : State Key) where
  within _ := Nat.zero_le _
  count := Nat.zero_le _
  recorded _ _ impossible := by cases impossible
  owned _ _ impossible := by cases impossible
  single _ _ _ _ _ impossible := by cases impossible
  once _ _ impossible := by cases impossible
  producers _ _ impossible := by cases impossible
  limits _ _ impossible := by cases impossible
  consumersIssued _ _ impossible := by cases impossible
  leasesIssued _ _ impossible := by cases impossible

theorem cache_sound_run (reached : (cacheSystem Key settings).Reachable System.always state) :
    Sound settings state := by
  refine reached.invariant (Sound settings) ?_ ?_
  · rintro _ rfl
    exact sound_fresh
  · intro before action after _ stepped sound
    obtain ⟨⟨after, answer⟩, served, rfl⟩ := map_eq_some_iff.mp stepped
    exact (cache_sound_step sound served).1

/-- In every reachable state the tiers and the table are within their bounds, every recorded lease is a
lease of a ready entry and every lease of an entry is recorded by exactly one live consumer, generating
entries have live producers, and no consumer holds more than its copy limit; and no request removes an
entry that has a lease. -/
theorem cache_bounds (settings : Settings) (state : State Key)
    (reached : (cacheSystem Key settings).Reachable System.always state) :
    (∀ tier, used state.entries tier ≤ settings.capacity tier) ∧
    state.entries.length ≤ settings.maxEntries ∧
    (∀ token record, state.consumers.get? token = some record →
      ∀ lease key, record.leases.get? lease = some key →
        ∃ entry, state.entries.get? key = some entry ∧ entry.isReady = true ∧ lease ∈ entry.leases) ∧
    (∀ key entry, state.entries.get? key = some entry → ∀ lease ∈ entry.leases,
      ∃ token record, state.consumers.get? token = some record ∧ record.leases.get? lease = some key ∧
        ∀ other found, state.consumers.get? other = some found →
          (found.leases.get? lease).isSome = true → other = token) ∧
    (∀ action next answer, state.step settings action = some (next, answer) →
      ∀ key entry, state.entries.get? key = some entry → entry.leases ≠ [] →
        ∃ kept, next.entries.get? key = some kept ∧ kept.isReady = true ∧ kept.bytes = entry.bytes) ∧
    (∀ key entry, state.entries.get? key = some entry → entry.isReady = false →
      ∃ record, state.consumers.get? entry.producer = some record) ∧
    ∀ token record, state.consumers.get? token = some record →
      ∃ held, copied state.entries record = some held ∧ held ≤ record.copyLimit := by
  have sound := cache_sound_run reached
  refine ⟨sound.within, sound.count, sound.recorded, fun key entry there lease member => ?_,
    fun action next answer stepped => (cache_sound_step sound stepped).2,
    fun key entry there generates => isSome_iff_exists.mp (sound.producers key entry there generates),
    fun token record known => ⟨_, sound.copied known, sound.limits token record known⟩⟩
  obtain ⟨token, record, known, names⟩ := sound.owned key entry there lease member
  refine ⟨token, record, known, names, fun other found there also => ?_⟩
  exact sound.single other found token record lease there known also (isSome_iff_exists.mpr ⟨key, names⟩)

/-! ### A shared entry -/

def smallCache : Settings := ⟨16, 0, 2, by decide, by decide⟩

def sampleMetadata : Metadata := ⟨some 64, some .float, some (.int 8), some .float⟩

def sharedEntry : List (Action ℕ) :=
  [.begin "a" 16, .begin "b" 16, .acquire "a" (some 7) 12 ⟨false, "c", true⟩,
    .acquire "b" (some 7) 12 ⟨false, "d", true⟩, .publish "a" 7 sampleMetadata 8 true,
    .wake 0 ⟨false, "e", true⟩]

theorem cache_bounds_shared : ∃ state : State ℕ,
    (cacheSystem ℕ smallCache).Reachable System.always state ∧
      (state.entries.get? 7).map Entry.leases = some ["e"] ∧
      used state.entries .ram ≤ 16 ∧
      ∀ action next answer, state.step smallCache action = some (next, answer) →
        (next.entries.get? 7).isSome = true := by
  have executed : ((cacheSystem ℕ smallCache).run System.always ⟨∅, ∅, .zero, [], []⟩ sharedEntry).map
      (fun state => (state.entries.get? 7).map Entry.leases) = some (some ["e"]) := by
    decide +kernel
  obtain ⟨state, finish, leased⟩ := map_eq_some_iff.mp executed
  have reached : (cacheSystem ℕ smallCache).Reachable System.always state :=
    System.reachable_of_run rfl finish
  obtain ⟨within, -, -, -, outlives, -⟩ := cache_bounds smallCache state reached
  refine ⟨state, reached, leased, within .ram, fun action next answer stepped => ?_⟩
  obtain ⟨entry, there, leases⟩ := map_eq_some_iff.mp leased
  obtain ⟨kept, after, -⟩ := outlives action next answer stepped 7 entry there (by rw [leases]; decide)
  rw [after]
  rfl

end TinyDSV41.Cache
