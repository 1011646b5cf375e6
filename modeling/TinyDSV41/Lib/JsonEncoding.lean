/-
**Values as they are encoded and decoded.**

Numbers that are not finite are not encoded, and neither are integers with too many digits. What is decoded
are objects, where the last value of a key counts.

* `encode` — the canonical text of a value.
* `decode_encode` — what is encoded is decoded to the same value, up to the order of keys.
* `encode_injective` — values with the same text are the same.
* `get_arranged`, `arranged_without` — looking up and leaving out keys does not depend on their order.
-/

import TinyDSV41.Lib.JsonReading

namespace TinyDSV41.Lib

open List Bool
open Prod (fst)
open Json (object)

/-! ### Encoding -/

mutual
def Json.fits (numbers : Numbers) : Json → Bool
  | .int value => decide (numbers.Fits value)
  | .list items => fitsItems numbers items
  | .object entries => fitsEntries numbers entries
  | _ => true
def fitsItems (numbers : Numbers) : List Json → Bool
  | [] => true
  | item :: rest => item.fits numbers && fitsItems numbers rest
def fitsEntries (numbers : Numbers) : List (Text × Json) → Bool
  | [] => true
  | (_, value) :: rest => value.fits numbers && fitsEntries numbers rest
end

/-- `json.dumps` without constants and with sorted keys, as bytes; none where it raises. -/
def encode (numbers : Numbers) (value : Json) : Option Text :=
  if value.finite && value.fits numbers then some (codes (dumps .compact value)) else none

/-- Integers of any length, and the constants. -/
def Numbers.free (numbers : Numbers) : Numbers := { numbers with digits := 0, constants := true }

/-- A value of JSON: its texts consist of code points that are no pairs, and its floats are read as they are
written. -/
def Json.Value (numbers : Numbers) (value : Json) : Prop := value.Readable numbers.free ∧ value.distinct = true

/-- The values are the same, up to the order of keys. -/
def Json.Same (first second : Json) : Prop := first.arranged .compact = second.arranged .compact

variable {encoded : Text}

section Encoding

variable {numbers : Numbers} {value : Json}

theorem distinct_literal (keys : (entries.map fst).Nodup)
    (all : entries.Forall (·.2.distinct = true)) : (object entries).distinct = true := by
  refine distinct_object.mpr ⟨?_, forall_mem_map.mpr (forall_iff_forall_mem.mp all)⟩
  have same : ((entries.map fun entry => (text entry.1, entry.2)).map fst) = (entries.map fst).map text := by
    rw [map_map, map_map]
    rfl
  rw [same]
  exact keys.map text_injective

theorem literal_finite (all : entries.Forall (·.2.finite = true)) :
    (object entries).finite = true := finiteEntries_iff.mpr (forall_mem_map.mpr (forall_iff_forall_mem.mp all))

theorem literal_readable (names : ∀ name ∈ entries.map fst, Plain (text name))
    (all : ∀ entry ∈ entries, entry.2.Readable numbers) : (object entries).Readable numbers :=
  readableEntries_iff.mpr (forall_mem_map.mpr fun entry mem =>
    ⟨names _ (mem_map_of_mem mem), all entry mem⟩)

theorem value_object (distinct : (entries.map fst).Nodup)
    (all : ∀ entry ∈ entries, Plain (text entry.1) ∧ entry.2.Value numbers) : (object entries).Value numbers := by
  refine ⟨readableEntries_iff.mpr (forall_mem_map.mpr fun entry mem => ?_), ?_⟩
  · exact ⟨(all entry mem).1, (all entry mem).2.1⟩
  · exact distinct_literal distinct (forall_iff_forall_mem.mpr fun entry mem => (all entry mem).2.2)

theorem value_list {items : List Json} (all : ∀ item ∈ items, item.Value numbers) : (Json.list items).Value numbers :=
  ⟨readableItems_iff.mpr fun item mem => (all item mem).1,
    distinctItems_iff.mpr fun item mem => (all item mem).2⟩

theorem value_int (whole : ℤ) : (Json.int whole).Value numbers := ⟨Or.inl rfl, rfl⟩

theorem value_str {value : Text} (plain : Plain value) : (Json.str value).Value numbers := ⟨plain, rfl⟩

theorem fitsItems_iff {items : List Json} :
    fitsItems numbers items = true ↔ ∀ item ∈ items, item.fits numbers = true := by
  induction items with
  | nil => exact ⟨nofun, fun _ => rfl⟩
  | cons item rest known => rw [fitsItems, and_eq_true, known, forall_mem_cons]

theorem fitsEntries_iff {entries : List (Text × Json)} :
    fitsEntries numbers entries = true ↔ ∀ entry ∈ entries, entry.2.fits numbers = true := by
  induction entries with
  | nil => exact ⟨nofun, fun _ => rfl⟩
  | cons entry rest known => rw [fitsEntries, and_eq_true, known, forall_mem_cons]

theorem readable_encoded (readable : value.Readable numbers.free) (finite : value.finite = true)
    (fits : value.fits numbers = true) : value.Readable numbers.strict := by
  induction value using Json.byParts with
  | null | bool => trivial
  | int value =>
    have small : numbers.Fits value := of_decide_eq_true fits
    exact small
  | float | str => exact readable
  | nonFinite => cases finite
  | list items known =>
    exact readableItems_iff.mpr fun item mem => known item mem (readableItems_iff.mp readable item mem)
      (finiteItems_iff.mp finite item mem) (fitsItems_iff.mp fits item mem)
  | object entries known =>
    refine readableEntries_iff.mpr fun entry mem => ?_
    obtain ⟨plain, value⟩ := readableEntries_iff.mp readable entry mem
    exact ⟨plain, known entry mem value (finiteEntries_iff.mp finite entry mem)
      (fitsEntries_iff.mp fits entry mem)⟩

theorem readable_strict (readable : value.Readable numbers.strict) :
    value.finite = true ∧ value.fits numbers = true := by
  induction value using Json.byParts with
  | null | bool | float | str => exact ⟨rfl, rfl⟩
  | int value => exact ⟨rfl, decide_eq_true readable⟩
  | nonFinite => cases readable
  | list items known =>
    have readable := readableItems_iff.mp readable
    exact ⟨finiteItems_iff.mpr fun item mem => (known item mem (readable item mem)).1,
      fitsItems_iff.mpr fun item mem => (known item mem (readable item mem)).2⟩
  | object entries known =>
    have readable := readableEntries_iff.mp readable
    exact ⟨finiteEntries_iff.mpr fun entry mem => (known entry mem (readable entry mem).2).1,
      fitsEntries_iff.mpr fun entry mem => (known entry mem (readable entry mem).2).2⟩

theorem encode_some : encode numbers value = some encoded ↔
    (value.finite = true ∧ value.fits numbers = true) ∧ codes (dumps .compact value) = encoded := by
  unfold encode
  by_cases may : (value.finite && value.fits numbers) = true
  · rw [if_pos may, Option.some_inj]
    exact (and_iff_right ((and_eq_true _ _).mp may)).symm
  · rw [if_neg may]
    exact ⟨nofun, fun both => absurd ((and_eq_true _ _).mpr both.1) may⟩

section

variable (valid : value.Value numbers) (found : encode numbers value = some encoded)
include valid found

theorem encode_readable : value.Readable numbers.strict :=
  readable_encoded valid.1 (encode_some.mp found).1.1 (encode_some.mp found).1.2

theorem encode_printable : ∀ code ∈ encoded, 32 ≤ code ∧ code ≤ 126 := by
  have readable := encode_readable valid found
  obtain ⟨-, rfl⟩ := encode_some.mp found
  intro code mem
  obtain ⟨character, there, rfl⟩ := mem_map.mp mem
  exact dumps_printable (by decide) (by decide) readable character there

end

end Encoding

/-! ### Keys -/

variable {second first : Json}

section Keys

variable {style : Style} {entries : List (Text × Json)} {value : Json} {key : String}
variable {inner : Json}

theorem get_object (distinct : (entries.map fst).Nodup) :
    (Json.object entries).get key = some inner ↔ (text key, inner) ∈ entries := by
  unfold Json.get
  constructor
  · intro found
    obtain ⟨entry, there, rfl⟩ := Option.map_eq_some_iff.mp found
    have same : entry.1 = text key := by simpa using find?_some there
    exact same ▸ mem_of_find?_eq_some there
  · intro mem
    cases there : entries.find? fun entry => entry.1 = text key with
    | none => exact absurd (decide_eq_true rfl) (find?_eq_none.mp there _ mem)
    | some entry =>
      have same : entry.1 = text key := by simpa using find?_some there
      have equal := inj_on_of_nodup_map distinct (mem_of_find?_eq_some there) mem same
      dsimp only
      rw [there, equal]
      rfl

theorem arranged_literal {first second : List (String × Json)}
    (same : (first.map fun entry => (entry.1, entry.2.arranged style))
      = second.map fun entry => (entry.1, entry.2.arranged style)) :
    (object first).arranged style = (object second).arranged style := by
  have shape : ∀ entries : List (String × Json), (object entries).arranged style
      = .object (style.order ((entries.map fun entry => (entry.1, entry.2.arranged style)).map
          fun entry => (text entry.1, entry.2))) := by
    intro entries
    unfold object
    rw [Json.arranged, arrangedEntries_map, map_map, map_map]
    rfl
  rw [shape, shape, same]

theorem get_arranged (distinct : value.distinct = true) :
    (value.arranged style).get key = (value.get key).map (Json.arranged style) := by
  cases value with
  | object entries =>
    have keys := (distinct_object.mp distinct).1
    have keys' : (((style.order entries).map fun entry => (entry.1, entry.2.arranged style)).map Prod.fst).Nodup := by
      rw [map_map]
      exact ((order_perm style entries).map Prod.fst).nodup_iff.mpr keys
    rw [Json.arranged, arrangedEntries_map, order_map]
    refine Option.ext fun inner => ?_
    rw [get_object keys', Option.map_eq_some_iff]
    constructor
    · intro mem
      obtain ⟨entry, there, same⟩ := mem_map.mp mem
      obtain ⟨named, rfl⟩ := Prod.mk.inj same
      exact ⟨entry.2, (get_object keys).mpr (named ▸ mem_order.mp there), rfl⟩
    · rintro ⟨value, found, rfl⟩
      exact mem_map.mpr ⟨_, mem_order.mpr ((get_object keys).mp found), rfl⟩
  | _ => rfl

/-- `set(value) == set(keys)` for an object. -/
def Json.hasKeys (value : Json) (keys : List String) : Bool :=
  value.isObject && decide (∀ key ∈ value.keys, key ∈ keys.map text) &&
    decide (∀ key ∈ keys.map text, key ∈ value.keys)

theorem hasKeys_object {entries : List (String × Json)} {names : List String}
    (same : (entries.map fst).Perm names) : (object entries).hasKeys names = true := by
  unfold Json.hasKeys
  rw [object_isObject, object_keys, Bool.true_and, and_eq_true, decide_eq_true_iff, decide_eq_true_iff]
  exact ⟨fun key => ((same.map text).mem_iff).mp, fun key => ((same.map text).mem_iff).mpr⟩

theorem keys_arranged (value : Json) : (value.arranged style).keys.Perm value.keys := by
  cases value with
  | object entries =>
    rw [Json.arranged, arrangedEntries_map, order_map]
    show (((style.order entries).map _).map fst).Perm (entries.map fst)
    rw [map_map]
    exact (order_perm style entries).map fst
  | _ => exact List.Perm.refl _

theorem hasKeys_arranged (value : Json) (keys : List String) :
    (value.arranged style).hasKeys keys = value.hasKeys keys := by
  have object : (value.arranged style).isObject = value.isObject := by
    cases value <;> rfl
  have mem : ∀ key, key ∈ (value.arranged style).keys ↔ key ∈ value.keys := fun key => (keys_arranged value).mem_iff
  unfold Json.hasKeys
  simp only [object, mem]

def Json.without (key : String) : Json → Json
  | .object entries => .object (entries.filter fun entry => entry.1 ≠ text key)
  | value => value

theorem sorted_unique {first second : List (Text × Json)} (same : first.Perm second)
    (distinct : (first.map fst).Nodup) (sorted : first.Pairwise fun one two => one.1 ≤ two.1)
    (sorted' : second.Pairwise fun one two => one.1 ≤ two.1) : first = second := by
  refine same.eq_of_pairwise (fun one two here there low high => ?_) sorted sorted'
  exact inj_on_of_nodup_map distinct here (same.mem_iff.mpr there) (Std.le_antisymm low high)

theorem order_sorted (sorted : style.sorted = true) (entries : List (Text × Json)) :
    (style.order entries).Pairwise fun one two => one.1 ≤ two.1 := by
  unfold Style.order
  rw [if_pos sorted]
  exact pairwise_insertionSort (fun one two : Text × Json => one.1 ≤ two.1) entries

theorem arranged_without (sorted : style.sorted = true) (distinct : value.distinct = true) :
    (value.without key).arranged style = (value.arranged style).without key := by
  cases value with
  | object entries =>
    have keys := (distinct_object.mp distinct).1
    have within := (keys.sublist ((filter_sublist (p := fun entry => entry.1 ≠ text key)).map fst))
    rw [Json.without, Json.arranged, Json.arranged, arrangedEntries_map, arrangedEntries_map, order_map, order_map,
      Json.without, filter_map]
    refine congrArg Json.object (congrArg (map _) ?_)
    refine sorted_unique ((order_perm style _).trans ((order_perm style entries).filter _).symm) ?_
      (order_sorted sorted _) ((order_sorted sorted entries).filter _)
    exact ((order_perm style _).map fst).nodup_iff.mpr within
  | _ => rfl

theorem arranged_entries (distinct : value.distinct = true) (found : value.get key = some inner) :
    ∃ entries, value.arranged .compact = .object entries ∧ (entries.map Prod.fst).Nodup ∧
      (entries.Pairwise fun one two => one.1 ≤ two.1) ∧ (text key, inner.arranged .compact) ∈ entries := by
  have distinct_ := arranged_distinct .compact distinct
  have found_ : (value.arranged .compact).get key = some (inner.arranged .compact) := by
    rw [get_arranged distinct, found]
    rfl
  cases value with
  | object entries =>
    rw [Json.arranged, arrangedEntries_map, order_map] at distinct_ found_ ⊢
    have keys := (distinct_object.mp distinct_).1
    exact ⟨_, rfl, keys, pairwise_map.mpr (order_sorted rfl entries), (get_object keys).mp found_⟩
  | _ => cases found

theorem same_of_without (distinct : first.distinct = true) (distinct' : second.distinct = true)
    (found : first.get key = some inner) (found' : second.get key = some inner)
    (same : (first.without key).Same (second.without key)) : first.Same second := by
  obtain ⟨entries, shape, keys, sorted, mem⟩ := arranged_entries distinct found
  obtain ⟨entries', shape', keys', sorted', member'⟩ := arranged_entries distinct' found'
  unfold Json.Same at same ⊢
  rw [arranged_without rfl distinct, arranged_without rfl distinct', shape, shape'] at same
  have others : (entries.filter fun entry => entry.1 ≠ text key) = entries'.filter fun entry => entry.1 ≠ text key :=
    object.inj same
  rw [shape, shape']
  refine congrArg Json.object (sorted_unique ?_ keys sorted sorted')
  refine (perm_ext_iff_of_nodup (keys.of_map _) (keys'.of_map _)).mpr fun entry => ?_
  by_cases named : entry.1 = text key
  · constructor
    · intro there
      rwa [inj_on_of_nodup_map keys there mem named]
    · intro there
      rwa [inj_on_of_nodup_map keys' there member' named]
  · have kept : ∀ entries : List (Text × Json), entry ∈ entries ↔
        entry ∈ entries.filter fun entry => entry.1 ≠ text key := by
      intro entries
      rw [mem_filter, decide_eq_true_iff, and_iff_left named]
    rw [kept entries, others, ← kept entries']

theorem finite_arranged (value : Json) : (value.arranged style).finite = value.finite := by
  rw [Bool.eq_iff_iff]
  induction value using Json.byParts with
  | list items known =>
    rw [Json.arranged, arrangedItems_map, Json.finite, Json.finite, finiteItems_iff, finiteItems_iff,
      forall_mem_map]
    exact forall₂_congr known
  | object entries known =>
    rw [Json.arranged, arrangedEntries_map, order_map, Json.finite, Json.finite, finiteEntries_iff,
      finiteEntries_iff, forall_mem_map]
    exact forall_congr' fun entry => by
      rw [mem_order]
      exact forall_congr' (known entry)
  | null | bool | int | float | nonFinite | str => rfl

theorem fits_arranged (numbers : Numbers) (value : Json) :
    (value.arranged style).fits numbers = value.fits numbers := by
  rw [Bool.eq_iff_iff]
  induction value using Json.byParts with
  | list items known =>
    rw [Json.arranged, arrangedItems_map, Json.fits, Json.fits, fitsItems_iff, fitsItems_iff, forall_mem_map]
    exact forall₂_congr known
  | object entries known =>
    rw [Json.arranged, arrangedEntries_map, order_map, Json.fits, Json.fits, fitsEntries_iff, fitsEntries_iff,
      forall_mem_map]
    exact forall_congr' fun entry => by
      rw [mem_order]
      exact forall_congr' (known entry)
  | null | bool | int | float | nonFinite | str => rfl

theorem encode_arranged (numbers : Numbers) (value : Json) :
    encode numbers (value.arranged .compact) = encode numbers value := by
  unfold encode
  rw [finite_arranged, fits_arranged, dumps_arranged]

end Keys

/-! ### Decoding -/

/-- The value of a key is replaced, or stands at the end. -/
def putEntry (entries : List (Text × Json)) (entry : Text × Json) : List (Text × Json) :=
  if entry.1 ∈ entries.map fst then entries.map fun other => if other.1 = entry.1 then entry else other
  else entries ++ [entry]

mutual
/-- In each object the last value of a key counts. -/
def Json.merged : Json → Json
  | .list items => .list (mergedItems items)
  | .object entries => .object ((mergedEntries entries).foldl putEntry [])
  | value => value
def mergedItems : List Json → List Json
  | [] => []
  | item :: rest => item.merged :: mergedItems rest
def mergedEntries : List (Text × Json) → List (Text × Json)
  | [] => []
  | (key, value) :: rest => (key, value.merged) :: mergedEntries rest
end

/-- `json.loads` -/
def decode (numbers : Numbers) (input : Text) : Option Json := (loads numbers.loose input).map Json.merged

section Decoding

theorem get_putEntry {name key : String} (differs : name ≠ key) (inner : Json) :
    (Json.object (putEntry entries (text name, inner))).get key = (Json.object entries).get key := by
  have other : decide (text name = text key) = false := decide_eq_false fun same => differs (text_injective same)
  unfold Json.get putEntry
  dsimp only
  congr 1
  split_ifs
  · have named : ((fun entry : Text × Json => decide (entry.1 = text key)) ∘
        fun other => if other.1 = text name then (text name, inner) else other)
          = fun entry => decide (entry.1 = text key) := by
      funext entry
      show decide ((if entry.1 = text name then (text name, inner) else entry).1 = text key) = _
      by_cases here : entry.1 = text name
      · rw [if_pos here, here]
      · rw [if_neg here]
    rw [find?_map, named]
    cases found : entries.find? fun entry => entry.1 = text key with
    | none => rfl
    | some entry =>
      have same : entry.1 = text key := by simpa using find?_some found
      have kept : entry.1 ≠ text name := fun here => differs (text_injective (here.symm.trans same))
      exact congrArg some (if_neg kept)
  · rw [find?_append, find?_singleton, other]
    simp

theorem mergedItems_map (items : List Json) : mergedItems items = items.map Json.merged := by
  induction items with
  | nil => rfl
  | cons item rest known => rw [mergedItems, known, map_cons]

theorem mergedEntries_map (entries : List (Text × Json)) :
    mergedEntries entries = entries.map fun entry => (entry.1, entry.2.merged) := by
  induction entries with
  | nil => rfl
  | cons entry rest known => rw [mergedEntries, known, map_cons]

variable {entry : Text × Json}

theorem mem_putEntry {other : Text × Json}
    (mem : other ∈ putEntry entries entry) : other = entry ∨ other ∈ entries := by
  unfold putEntry at mem
  split_ifs at mem
  · obtain ⟨old, there, same⟩ := mem_map.mp mem
    split_ifs at same
    · exact Or.inl same.symm
    · exact Or.inr (same ▸ there)
  · rcases mem_append.mp mem with mem | mem
    · exact Or.inr mem
    · exact Or.inl (mem_singleton.mp mem)

theorem keys_putEntry (distinct : (entries.map fst).Nodup) (entry : Text × Json) :
    ((putEntry entries entry).map fst).Nodup := by
  unfold putEntry
  split_ifs with mem
  · have same : (entries.map fun other => if other.1 = entry.1 then entry else other).map fst
        = entries.map fst := by
      rw [map_map]
      refine map_congr_left fun other _ => ?_
      show (if other.1 = entry.1 then entry else other).1 = other.1
      split_ifs with named
      · exact named.symm
      · rfl
    rwa [same]
  · rw [map_append, nodup_append]
    refine ⟨distinct, nodup_singleton _, fun one here two there => ?_⟩
    rintro rfl
    exact mem (mem_singleton.mp there ▸ here)

theorem value_putEntry (valid : (Json.object entries).Value numbers)
    (plain : Plain entry.1) (inner : entry.2.Value numbers) :
    (Json.object (putEntry entries entry)).Value numbers := by
  obtain ⟨readable, distinct⟩ := valid
  obtain ⟨keys, all⟩ := distinct_object.mp distinct
  have readable := readableEntries_iff.mp readable
  refine ⟨readableEntries_iff.mpr fun other mem => ?_,
    distinct_object.mpr ⟨keys_putEntry keys entry, fun other mem => ?_⟩⟩
  · rcases mem_putEntry mem with rfl | mem
    · exact ⟨plain, inner.1⟩
    · exact readable other mem
  · rcases mem_putEntry mem with rfl | mem
    · exact inner.2
    · exact all other mem

variable {value : Json}

theorem value_arranged (style : Style) (valid : value.Value numbers) :
    (value.arranged style).Value numbers :=
  ⟨arranged_readable style valid.1, arranged_distinct style valid.2⟩

variable {entries more : List (Text × Json)}

theorem foldl_putEntry (distinct : ((entries ++ more).map fst).Nodup) :
    more.foldl putEntry entries = entries ++ more := by
  induction more generalizing entries with
  | nil => rw [append_nil]; rfl
  | cons entry rest known =>
    have fresh : entry.1 ∉ entries.map fst := by
      intro mem
      rw [map_append, nodup_append] at distinct
      exact distinct.2.2 _ mem _ mem_cons_self rfl
    have one : putEntry entries entry = entries ++ [entry] := if_neg fresh
    rw [foldl_cons, one, known (by rwa [append_assoc]), append_assoc]
    rfl

theorem merged_distinct (distinct : value.distinct = true) : value.merged = value := by
  induction value using Json.byParts with
  | list items known =>
    rw [Json.merged, mergedItems_map]
    have all := distinctItems_iff.mp distinct
    exact congrArg Json.list ((map_congr_left fun item mem => known item mem (all item mem)).trans
      (map_id items))
  | object entries known =>
    obtain ⟨keys, all⟩ := distinct_object.mp distinct
    have same : (entries.map fun entry => (entry.1, entry.2.merged)) = entries := by
      refine (map_congr_left fun entry mem => ?_).trans (map_id entries)
      rw [known entry mem (all entry mem)]
      rfl
    have joined : entries.foldl putEntry [] = [] ++ entries := foldl_putEntry keys
    rw [Json.merged, mergedEntries_map, same, joined]
    rfl
  | null | bool | int | float | nonFinite | str => rfl

theorem foldl_putEntry_distinct (distinct : (entries.map fst).Nodup)
    (more : List (Text × Json)) : ((more.foldl putEntry entries).map fst).Nodup := by
  induction more generalizing entries with
  | nil => exact distinct
  | cons entry rest known => exact known (keys_putEntry distinct entry)

theorem mem_foldl_putEntry
    (mem : entry ∈ more.foldl putEntry entries) : entry ∈ entries ∨ entry ∈ more := by
  induction more generalizing entries with
  | nil => exact Or.inl mem
  | cons first rest known =>
    rcases known mem with mem | mem
    · rcases mem_putEntry mem with rfl | mem
      · exact Or.inr mem_cons_self
      · exact Or.inl mem
    · exact Or.inr (mem_cons_of_mem _ mem)

theorem mem_merged
    (mem : entry ∈ (mergedEntries entries).foldl putEntry []) :
    ∃ old ∈ entries, entry = (old.1, old.2.merged) := by
  rw [mergedEntries_map] at mem
  rcases mem_foldl_putEntry mem with mem | mem
  · cases mem
  · obtain ⟨old, there, same⟩ := mem_map.mp mem
    exact ⟨old, there, same.symm⟩

theorem distinct_merged (value : Json) : value.merged.distinct = true := by
  have nothing : ∀ more : List (Text × Json), ((more.foldl putEntry []).map fst).Nodup :=
    foldl_putEntry_distinct nodup_nil
  induction value using Json.byParts with
  | list items known =>
    rw [Json.merged, mergedItems_map]
    exact distinctItems_iff.mpr (forall_mem_map.mpr known)
  | object entries known =>
    refine distinct_object.mpr ⟨nothing _, fun entry mem => ?_⟩
    obtain ⟨old, there, rfl⟩ := mem_merged mem
    exact known old there
  | null | bool | int | float | nonFinite | str => rfl

theorem merged_readable (readable : value.Readable numbers) : value.merged.Readable numbers := by
  induction value using Json.byParts with
  | list items known =>
    rw [Json.merged, mergedItems_map]
    exact readableItems_iff.mpr (forall_mem_map.mpr fun item mem =>
      known item mem (readableItems_iff.mp readable item mem))
  | object entries known =>
    refine readableEntries_iff.mpr fun entry mem => ?_
    obtain ⟨old, there, rfl⟩ := mem_merged mem
    obtain ⟨plain, inner⟩ := readableEntries_iff.mp readable old there
    exact ⟨plain, known old there inner⟩
  | null | bool | int | float | nonFinite | str => exact readable

/-- **What is encoded is decoded**, with sorted keys. -/
theorem decode_encode (valid : value.Value numbers)
    (found : encode numbers value = some encoded) :
    decode numbers encoded = some (value.arranged .compact) := by
  have strict := loose_readable (encode_readable valid found)
  have readable : value.Readable numbers.loose := strict
  obtain ⟨-, rfl⟩ := encode_some.mp found
  unfold decode
  rw [loads_dumps compact_separates readable, Option.map_some, merged_distinct (arranged_distinct .compact valid.2)]

theorem encode_injective (valid : first.Value numbers) (valid' : second.Value numbers)
    (found : encode numbers first = some encoded) (found' : encode numbers second = some encoded) :
    first.Same second :=
  Option.some.inj ((decode_encode valid found).symm.trans (decode_encode valid' found'))

theorem Json.Same.text (same : first.Same second) : dumps .compact first = dumps .compact second := by
  rw [← dumps_arranged, same, dumps_arranged]

end Decoding

end TinyDSV41.Lib
