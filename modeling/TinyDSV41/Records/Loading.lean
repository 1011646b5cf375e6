/-
**What the checks of records accept.**

* `integer_ok`, `tokens_ok`, `finite_ok`, `exclusion_ok` — each check by an equivalence.
* `Loaded` — values without keys twice, whose texts and numbers are read as they are written.
* `dictOf_loaded`, `normalise_loaded` — what mappings and evidence are of loaded values.
-/

import TinyDSV41.Records.Basic

namespace TinyDSV41.Records

open List Lib
open Option (bind_eq_some_iff bind_some some_inj)
open Except (ok)
open Json (int object str)

variable {runtime : Runtime}

/-! ### What the checks accept -/

section Checks

variable {value : Json} {message : String}

theorem integer_ok {minimum whole : ℕ} :
    integer value minimum message = .ok whole ↔ value = .int whole ∧ minimum ≤ whole := by
  cases value with
  | int number =>
    unfold integer
    dsimp only
    by_cases enough : (minimum : ℤ) ≤ number
    · rw [if_pos enough, ok.injEq, int.injEq]
      omega
    · rw [if_neg enough, int.injEq]
      exact ⟨nofun, fun both => by omega⟩
  | _ => exact ⟨nofun, fun both => (by cases both.1)⟩

theorem digestText_ok {digest : Text} :
    digestText value message = .ok digest ↔ value = .str digest ∧ isDigest digest = true := by
  cases value with
  | str text =>
    unfold digestText
    dsimp only
    rw [str.injEq]
    by_cases valid : isDigest text = true
    · rw [if_pos valid, ok.injEq]
      exact ⟨fun same => ⟨same, same ▸ valid⟩, fun both => both.1⟩
    · rw [if_neg valid]
      exact ⟨nofun, fun both => absurd (both.1 ▸ both.2) valid⟩
  | _ => exact ⟨nofun, fun both => (by cases both.1)⟩

theorem nonempty_ok {found : Text} : nonempty value message = .ok found ↔ value = .str found ∧ found ≠ [] := by
  cases value with
  | str text =>
    unfold nonempty
    dsimp only
    rw [str.injEq]
    by_cases some_ : text ≠ []
    · rw [if_pos some_, ok.injEq]
      exact ⟨fun same => ⟨same, same ▸ some_⟩, fun both => both.1⟩
    · rw [if_neg some_]
      exact ⟨nofun, fun both => absurd (both.1 ▸ both.2) some_⟩
  | _ => exact ⟨nofun, fun both => (by cases both.1)⟩

theorem natural_some {id : ℕ} : natural value = some id ↔ value = .int id := by
  cases value with
  | int whole =>
    unfold natural
    dsimp only
    by_cases positive : 0 ≤ whole
    · rw [if_pos positive, some_inj, int.injEq]
      omega
    · rw [if_neg positive, int.injEq]
      exact ⟨nofun, fun same => by omega⟩
  | _ => exact ⟨nofun, nofun⟩

theorem mapM_natural {items : List Json} {ids : List ℕ} :
    items.mapM natural = some ids ↔ items = ids.map fun id : ℕ => .int id := by
  induction items generalizing ids with
  | nil =>
    cases ids with
    | nil => exact ⟨fun _ => rfl, fun _ => rfl⟩
    | cons id ids => exact ⟨nofun, nofun⟩
  | cons item rest known =>
    rw [mapM_cons]
    constructor
    · intro found
      obtain ⟨id, here, found⟩ := bind_eq_some_iff.mp found
      obtain ⟨others, later, same⟩ := bind_eq_some_iff.mp found
      cases same
      rw [natural_some.mp here, known.mp later]
      rfl
    · intro same
      cases ids with
      | nil => cases same
      | cons id others =>
        obtain ⟨here, later⟩ := cons.inj same
        rw [natural_some.mpr here, known.mpr later]
        rfl

theorem tokens_ok {name : String} {ids : List ℕ} : tokens value name = .ok ids ↔ value = tokensJson ids ∧ ids ≠ [] := by
  have list : ∀ items : List Json, tokens (.list items) name = .ok ids ↔ items.mapM natural = some ids ∧ ids ≠ [] := by
    intro items
    simp only [tokens, iterate, bind, Except.bind]
    cases items.mapM natural with
    | none => exact ⟨nofun, fun both => (by cases both.1)⟩
    | some found =>
      cases found with
      | nil =>
        refine ⟨nofun, fun both => ?_⟩
        exact absurd (Option.some.inj both.1).symm both.2
      | cons id others =>
        rw [Except.ok.injEq, Option.some_inj]
        exact ⟨fun same => ⟨same, same ▸ cons_ne_nil id others⟩, fun both => both.1⟩
  cases value with
  | list items =>
    rw [list, mapM_natural, tokensJson, Json.list.injEq]
  | object entries =>
    refine ⟨fun found => ?_, fun both => (by cases both.1)⟩
    cases entries with
    | nil | cons => cases found
  | _ => exact ⟨nofun, fun both => (by cases both.1)⟩

theorem finite_ok {number : Finite} : finite runtime value message = .ok number ↔
    value = number.json ∨ ∃ whole, value = .int whole ∧ runtime.ofInt whole = some (number.value, number.shortest) := by
  cases value with
  | int whole =>
    unfold finite
    dsimp only
    cases converted : runtime.ofInt whole with
    | none =>
      refine ⟨nofun, ?_⟩
      rintro (same | ⟨other, same, found⟩)
      · cases same
      · cases same
        rw [converted] at found
        cases found
    | some pair =>
      constructor
      · intro same
        cases same
        exact Or.inr ⟨whole, rfl, converted⟩
      · rintro (same | ⟨other, same, found⟩)
        · cases same
        · cases same
          rw [converted] at found
          cases found
          rfl
  | float value shortest =>
    constructor
    · intro same
      cases same
      exact Or.inl rfl
    · rintro (same | ⟨other, same, -⟩)
      · cases same
        rfl
      · cases same
  | _ =>
    refine ⟨nofun, ?_⟩
    rintro (same | ⟨other, same, -⟩)
    all_goals cases same

theorem flag_ok {found : Bool} : flag value message = .ok found ↔ value = .bool found := by
  cases value with
  | bool value =>
    show ok value = ok found ↔ _
    rw [ok.injEq, Json.bool.injEq]
  | _ => exact ⟨nofun, nofun⟩

theorem exclusion_ok {eligible : Bool} {reason : Option Text} : exclusion eligible value = .ok reason ↔
    eligible = true ∧ value = .null ∧ reason = none ∨
      eligible = false ∧ ∃ found, value = .str found ∧ found ≠ [] ∧ reason = some found := by
  cases eligible with
  | true =>
    refine Iff.trans ?_ (or_iff_left (fun both => (by cases both.1))).symm
    cases value with
    | null => exact ⟨fun same => ⟨rfl, rfl, (ok.inj same).symm⟩, fun both => congrArg _ both.2.2.symm⟩
    | _ => exact ⟨nofun, fun both => (by cases both.2.1)⟩
  | false =>
    refine Iff.trans ?_ (or_iff_right (fun both => (by cases both.1))).symm
    show (nonempty value _).map some = .ok reason ↔ _
    rw [map_eq_ok]
    constructor
    · rintro ⟨found, read, same⟩
      obtain ⟨text, some_⟩ := nonempty_ok.mp read
      exact ⟨rfl, found, text, some_, same.symm⟩
    · rintro ⟨-, found, text, some_, same⟩
      exact ⟨found, nonempty_ok.mpr ⟨text, some_⟩, same.symm⟩

theorem exclusion_again {eligible : Bool} {reason : Option Text} (found : exclusion eligible value = .ok reason) :
    exclusion eligible (optionJson str reason) = .ok reason := by
  rcases exclusion_ok.mp found with ⟨isEligible, -, rfl⟩ | ⟨isExcluded, text, -, some_, rfl⟩
  · exact exclusion_ok.mpr (Or.inl ⟨isEligible, rfl, rfl⟩)
  · exact exclusion_ok.mpr (Or.inr ⟨isExcluded, text, rfl, some_, rfl⟩)

end Checks

/-! ### Dictionaries in any order -/

section Fields

variable {value : Json} {style : Style}

@[simp] theorem field_arranged (distinct : value.distinct = true) (key : String) :
    field (value.arranged style) key = (field value key).arranged style := by
  unfold field
  rw [get_arranged distinct]
  cases value.get key <;> rfl

@[simp] theorem field_object_cons (name key : String) (value : Json) (rest : List (String × Json)) :
    field (object ((name, value) :: rest)) key = if name = key then value else field (object rest) key := by
  unfold field
  rw [object_get_cons]
  split_ifs <;> rfl

theorem fields_ok {names : List String} : fields value names = .ok () ↔ value.hasKeys names = true := require_eq_ok

theorem keyed_object (entries : List (Text × Json)) :
    keyed (entries.map fun entry => (.str entry.1, entry.2)) = some entries := by
  induction entries with
  | nil => rfl
  | cons entry rest known =>
    unfold keyed at known ⊢
    rw [map_cons, mapM_cons, known]
    rfl

theorem namedTexts_cons {entry : Text × Json} {rest : List (Text × Json)} {named : List (Text × Text)} :
    namedTexts (entry :: rest) = some named ↔ ∃ first others, entry = (first.1, .str first.2) ∧
      (first.1 ≠ [] ∧ first.2 ≠ []) ∧ namedTexts rest = some others ∧ first :: others = named := by
  obtain ⟨key, value⟩ := entry
  unfold namedTexts
  rw [mapM_cons]
  cases value with
  | str value =>
    by_cases both : key ≠ [] ∧ value ≠ []
    · simp [both, bind_eq_some_iff]
    · dsimp only
      rw [if_neg both]
      refine ⟨nofun, ?_⟩
      rintro ⟨first, -, same, some_, -⟩
      cases same
      exact absurd some_ both
  | _ => simp

theorem namedTexts_some {entries : List (Text × Json)} {named : List (Text × Text)} :
    namedTexts entries = some named ↔
      entries = (named.map fun entry => (entry.1, .str entry.2)) ∧ ∀ entry ∈ named, entry.1 ≠ [] ∧ entry.2 ≠ [] := by
  induction entries generalizing named with
  | nil =>
    cases named with
    | nil => exact ⟨fun _ => ⟨rfl, nofun⟩, fun _ => rfl⟩
    | cons entry named => exact ⟨nofun, fun both => (by cases both.1)⟩
  | cons entry rest known =>
    rw [namedTexts_cons]
    constructor
    · rintro ⟨first, others, rfl, some_, later, rfl⟩
      obtain ⟨rfl, all⟩ := known.mp later
      exact ⟨rfl, forall_mem_cons.mpr ⟨some_, all⟩⟩
    · rintro ⟨same, all⟩
      cases named with
      | nil => cases same
      | cons first others =>
        obtain ⟨some_, all⟩ := forall_mem_cons.mp all
        obtain ⟨here, later⟩ := cons.inj same
        exact ⟨first, others, here, some_, known.mpr ⟨later, all⟩, rfl⟩

end Fields

/-! ### Values that are loaded -/

/-- No key stands twice, and texts, keys and numbers are read as they are written. -/
def Loaded (runtime : Runtime) (value : Json) : Prop :=
  value.Readable runtime.numbers.loose ∧ value.distinct = true

namespace Loaded

variable {value : Json}

theorem null : Loaded runtime .null := ⟨trivial, rfl⟩

theorem items {items : List Json} (all : Loaded runtime (.list items)) : ∀ item ∈ items, Loaded runtime item :=
  fun item mem => ⟨readableItems_iff.mp all.1 item mem, distinctItems_iff.mp all.2 item mem⟩

theorem entries {entries : List (Text × Json)} (all : Loaded runtime (.object entries)) :
    ∀ entry ∈ entries, Plain entry.1 ∧ Loaded runtime entry.2 := by
  intro entry mem
  obtain ⟨plain, readable⟩ := readableEntries_iff.mp all.1 entry mem
  exact ⟨plain, readable, (distinct_object.mp all.2).2 entry mem⟩

theorem field (all : Loaded runtime value) (key : String) : Loaded runtime (Records.field value key) := by
  unfold Records.field
  cases found : value.get key with
  | none => exact null
  | some inner =>
    cases value with
    | object entries =>
      obtain ⟨entry, there, rfl⟩ := Option.map_eq_some_iff.mp found
      exact (all.entries entry (mem_of_find?_eq_some there)).2
    | _ => cases found

theorem code {value : Text} (plain : Plain value) {code : ℕ} (mem : code ∈ value) : Loaded runtime (.str [code]) :=
  ⟨⟨fun _ there => mem_singleton.mp there ▸ plain.1 code mem, rfl⟩, rfl⟩

section

variable (all : Loaded runtime value)
include all

theorem iterate {items : List Json} (ran : Records.iterate value = .ok items) :
    ∀ item ∈ items, Loaded runtime item := by
  cases value with
  | list items_ =>
    cases ran
    exact all.items
  | str value =>
    cases ran
    exact forall_mem_map.mpr fun _ mem => code all.1 mem
  | object entries =>
    cases ran
    exact forall_mem_map.mpr fun entry mem => ⟨(all.entries entry mem).1, rfl⟩
  | _ => cases ran

theorem pairOf {pair : Json × Json} (ran : Records.pairOf value = .ok pair) :
    Loaded runtime pair.1 ∧ Loaded runtime pair.2 := by
  unfold Records.pairOf at ran
  split at ran
  · cases ran
    exact ⟨all.items _ mem_cons_self, all.items _ (mem_cons_of_mem _ mem_cons_self)⟩
  · cases ran
    exact ⟨code all.1 mem_cons_self, code all.1 (mem_cons_of_mem _ mem_cons_self)⟩
  · cases ran
    exact ⟨⟨(all.entries _ mem_cons_self).1, rfl⟩,
      ⟨(all.entries _ (mem_cons_of_mem _ mem_cons_self)).1, rfl⟩⟩
  all_goals cases ran

theorem strict (finite : value.finite = true) : value.Readable runtime.numbers.strict :=
  readable_finite all.1 finite

theorem finite {number : Finite} {message : String}
    (ran : Records.finite runtime value message = .ok number) :
    number.json.Readable runtime.numbers.strict := by
  rcases finite_ok.mp ran with rfl | ⟨whole, rfl, converted⟩
  · exact all.1
  · exact runtime.ofInt_float converted

end

end Loaded

variable {numbers : Numbers}

theorem fits_digit {whole : ℕ} (small : whole < 10) : numbers.Fits whole := by
  by_cases free : numbers.digits = 0
  · exact Or.inl free
  · refine Or.inr ?_
    rw [Int.natAbs_natCast, Nat.toDigits_of_lt_base small]
    exact Nat.one_le_iff_ne_zero.mpr free

theorem fits_one : numbers.Fits 1 := by
  have one : numbers.Fits (1 : ℕ) := fits_digit (by decide)
  exact one

/-! ### Mappings -/

def Apart (pairs : List (Json × Json)) : Prop := pairs.Pairwise fun first second => sameKey first.1 second.1 = false

variable {pairs : List (Json × Json)}

theorem putPair_apart (apart : Apart pairs) (pair : Json × Json) : Apart (putPair pairs pair) := by
  unfold putPair
  split_ifs with there
  · refine pairwise_map.mpr (apart.imp fun {first second} differs => ?_)
    have kept : ∀ other : Json × Json, (if sameKey other.1 pair.1 = true then (other.1, pair.2) else other).1 = other.1 := by
      intro other
      split_ifs <;> rfl
    rw [kept, kept]
    exact differs
  · refine pairwise_append.mpr ⟨apart, pairwise_singleton _ _, fun first here second new => ?_⟩
    rw [mem_singleton.mp new]
    exact eq_false_of_ne_true fun same => there (any_eq_true.mpr ⟨first, here, same⟩)

theorem mem_putPair {pair other : Json × Json} (mem : other ∈ putPair pairs pair) :
    other ∈ pairs ∨ (other.1 = pair.1 ∨ ∃ old ∈ pairs, other.1 = old.1) ∧ other.2 = pair.2 := by
  unfold putPair at mem
  split_ifs at mem
  · obtain ⟨old, there, same⟩ := mem_map.mp mem
    split_ifs at same
    · exact Or.inr ⟨Or.inr ⟨old, there, same ▸ rfl⟩, same ▸ rfl⟩
    · exact Or.inl (same ▸ there)
  · rcases mem_append.mp mem with mem | mem
    · exact Or.inl mem
    · rw [mem_singleton.mp mem]
      exact Or.inr ⟨Or.inl rfl, rfl⟩

theorem foldl_putPair_apart (apart : Apart pairs) (new : List (Json × Json)) :
    Apart (new.foldl putPair pairs) := by
  induction new generalizing pairs with
  | nil => exact apart
  | cons pair rest known => exact known (putPair_apart apart pair)

theorem foldl_putPair_all {holds : Json → Prop} {new : List (Json × Json)}
    (all : ∀ pair ∈ pairs, holds pair.1 ∧ holds pair.2)
    (more : ∀ pair ∈ new, holds pair.1 ∧ holds pair.2) :
    ∀ pair ∈ new.foldl putPair pairs, holds pair.1 ∧ holds pair.2 := by
  induction new generalizing pairs with
  | nil => exact all
  | cons pair rest known =>
    obtain ⟨here, later⟩ := forall_mem_cons.mp more
    refine known (fun other mem => ?_) later
    rcases mem_putPair mem with mem | ⟨key | ⟨old, mem, key⟩, value⟩
    · exact all other mem
    · exact key ▸ value ▸ here
    · exact ⟨key ▸ (all old mem).1, value ▸ here.2⟩

variable {value : Json}

theorem dictOf_all {holds : Json → Prop}
    (object : ∀ entries, value = .object entries → ∀ entry ∈ entries, holds (.str entry.1) ∧ holds
      entry.2)
    (sequence : ∀ items, iterate value = .ok items → ∀ item ∈ items, ∀ pair, pairOf item = .ok pair →
      holds pair.1 ∧ holds pair.2) (ran : dictOf value = .ok pairs) :
    ∀ pair ∈ pairs, holds pair.1 ∧ holds pair.2 := by
  cases value with
  | object entries =>
    cases ran
    exact forall_mem_map.mpr (object entries rfl)
  | _ =>
    obtain ⟨items, iterated, ran⟩ := bind_eq_ok.mp ran
    obtain ⟨paired, each, ran⟩ := bind_eq_ok.mp ran
    obtain ⟨_, -, ran⟩ := bind_eq_ok.mp ran
    cases ran
    refine foldl_putPair_all (nofun) fun pair mem => ?_
    obtain ⟨item, within, found⟩ := forall₂_right (mapM_eq_ok.mp each) mem
    exact sequence items iterated item within pair found

theorem dictOf_apart (distinct : value.distinct = true) (ran : dictOf value = .ok pairs) :
    Apart pairs := by
  cases value with
  | object entries =>
    cases ran
    refine pairwise_map.mpr ?_
    exact (pairwise_map.mp (distinct_object.mp distinct).1).imp beq_false_of_ne
  | _ =>
    obtain ⟨items, -, ran⟩ := bind_eq_ok.mp ran
    obtain ⟨paired, -, ran⟩ := bind_eq_ok.mp ran
    obtain ⟨_, -, ran⟩ := bind_eq_ok.mp ran
    cases ran
    exact foldl_putPair_apart List.Pairwise.nil paired

theorem dictOf_loaded (loaded : Loaded runtime value) (ran : dictOf value = .ok pairs) :
    Apart pairs ∧ ∀ pair ∈ pairs, Loaded runtime pair.1 ∧ Loaded runtime pair.2 := by
  refine ⟨dictOf_apart loaded.2 ran, dictOf_all (fun entries same entry mem => ?_)
    (fun items iterated item mem pair found => ?_) ran⟩
  · rw [same] at loaded
    exact ⟨⟨(loaded.entries entry mem).1, rfl⟩, (loaded.entries entry mem).2⟩
  · exact (loaded.iterate iterated item mem).pairOf found

theorem keyed_some (found : keyed pairs = some entries) :
    pairs = entries.map fun entry => (.str entry.1, entry.2) := by
  induction pairs generalizing entries with
  | nil =>
    cases found
    rfl
  | cons pair rest known =>
    unfold keyed at known found
    rw [mapM_cons] at found
    obtain ⟨first, here, found⟩ := bind_eq_some_iff.mp found
    obtain ⟨others, later, same⟩ := bind_eq_some_iff.mp found
    cases same
    obtain ⟨key, value⟩ := pair
    cases key with
    | str key =>
      cases here
      rw [known later]
      rfl
    | _ => cases here

theorem keyed_loaded (loaded : Loaded runtime value)
    (ran : dictOf value = .ok pairs) (found : keyed pairs = some entries) :
    Loaded runtime (.object entries) := by
  obtain ⟨apart, all⟩ := dictOf_loaded loaded ran
  rw [keyed_some found] at apart all
  have all := forall_mem_map.mp all
  refine ⟨readableEntries_iff.mpr fun entry mem => ⟨(all entry mem).1.1, (all entry mem).2.1⟩,
    distinct_object.mpr ⟨List.pairwise_map.mpr ?_, fun entry mem => (all entry mem).2.2⟩⟩
  exact (pairwise_map.mp apart).imp ne_of_beq_false

/-! ### Evidence -/

theorem dumpsSpaced_some {written : Text} : dumpsSpaced runtime value = some written ↔
    (value.finite = true ∧ value.fits runtime.numbers = true) ∧ codes (Lib.dumps .spaced value) = written := by
  unfold dumpsSpaced
  by_cases may : (value.finite && value.fits runtime.numbers) = true
  · rw [if_pos may, some_inj]
    exact (and_iff_right ((Bool.and_eq_true _ _).mp may)).symm
  · rw [if_neg may]
    exact ⟨nofun, fun both => absurd ((Bool.and_eq_true _ _).mpr both.1) may⟩

theorem decode_spaced (readable : value.Readable runtime.numbers.strict) :
    decode runtime.numbers (codes (Lib.dumps .spaced value)) = some value.merged := by
  have strict := loose_readable readable
  have loose : value.Readable runtime.numbers.loose := strict
  unfold decode
  rw [Lib.loads_dumps spaced_separates loose, Option.map_some, arranged_unsorted rfl]

theorem keyTexts_object (entries : List (Text × Json)) :
    keyTexts (entries.map fun entry => (.str entry.1, entry.2)) = some entries := by
  induction entries with
  | nil => rfl
  | cons entry rest known =>
    unfold keyTexts at known ⊢
    rw [map_cons, mapM_cons, known]
    rfl

theorem normalise_ok : normalise runtime value = .ok entries ↔
    ∃ pairs named written, dictOf value = .ok pairs ∧ keyTexts pairs = some named ∧
      dumpsSpaced runtime (.object named) = some written ∧ decode runtime.numbers written = some (.object entries) := by
  constructor
  · intro ran
    obtain ⟨pairs, paired, ran⟩ := bind_eq_ok.mp ran
    split at ran
    · rename_i decoded found
      cases ran
      obtain ⟨written, wrote, read⟩ := bind_eq_some_iff.mp found
      obtain ⟨named, keyed_, wrote⟩ := bind_eq_some_iff.mp wrote
      exact ⟨pairs, named, written, paired, keyed_, wrote, read⟩
    · cases ran
  · rintro ⟨pairs, named, written, paired, keyed_, wrote, read⟩
    refine ok_bind paired ?_
    rw [keyed_, bind_some, wrote, bind_some, read]

theorem normalise_object
    (readable : (object entries).Readable runtime.numbers.strict)
    (distinct : (object entries).distinct = true) : normalise runtime (.object entries) = .ok entries := by
  refine normalise_ok.mpr ⟨_, entries, _, rfl, keyTexts_object entries, dumpsSpaced_some.mpr
    ⟨readable_strict readable, rfl⟩, ?_⟩
  rw [decode_spaced readable, merged_distinct distinct]

theorem keyText_plain {key : Json} {name : Text} (loaded : Loaded runtime key) (found : keyText key = some name) :
    Plain name := by
  have printable : (∀ character ∈ Lib.dumps .compact key, Printable character) :=
    dumps_printable (by decide) (by decide) loaded.1
  have plain : ∀ written : List Char, (∀ character ∈ written, Printable character) → Plain (codes written) := by
    intro written all
    refine scalar_plain (forall_mem_map.mpr fun character mem => ?_)
    obtain ⟨-, large⟩ := all character mem
    exact ⟨by omega, by omega⟩
  cases key with cases found
  | str key =>
    exact loaded.1
  | bool value =>
    cases value <;> decide
  | null =>
    decide
  | int | float =>
    exact plain _ printable

theorem keyTexts_loaded {named : List (Text × Json)}
    (all : ∀ pair ∈ pairs, Loaded runtime pair.1 ∧ Loaded runtime pair.2)
    (found : keyTexts pairs = some named) :
    (object named).Readable runtime.numbers.loose := by
  refine readableEntries_iff.mpr ?_
  induction pairs generalizing named with
  | nil =>
    cases found
    exact nofun
  | cons pair rest known =>
    obtain ⟨here, later⟩ := forall_mem_cons.mp all
    unfold keyTexts at known found
    rw [mapM_cons] at found
    obtain ⟨first, read, found⟩ := bind_eq_some_iff.mp found
    obtain ⟨others, more, same⟩ := bind_eq_some_iff.mp found
    cases same
    obtain ⟨key, named_, rfl⟩ := Option.map_eq_some_iff.mp read
    exact forall_mem_cons.mpr ⟨⟨keyText_plain here.1 named_, here.2.1⟩, known later more⟩

theorem normalise_loaded (loaded : Loaded runtime value)
    (ran : normalise runtime value = .ok entries) :
    (object entries).Readable runtime.numbers.strict ∧ (object entries).distinct = true := by
  obtain ⟨pairs, named, written, paired, keyed_, wrote, read⟩ := normalise_ok.mp ran
  obtain ⟨⟨finite, -⟩, rfl⟩ := dumpsSpaced_some.mp wrote
  have readable : (object named).Readable runtime.numbers.strict :=
    readable_finite (keyTexts_loaded (dictOf_loaded loaded paired).2 keyed_) finite
  rw [decode_spaced readable] at read
  rw [← Option.some.inj read]
  exact ⟨merged_readable readable, distinct_merged _⟩

/-! ### Options -/

variable {read : Json → Checked Value}

theorem optional_ok {result : Option Value} :
    optional value read = .ok result ↔
      value = .null ∧ result = none ∨ value ≠ .null ∧ ∃ inner, read value = .ok inner ∧ result = some inner := by
  by_cases null : value = .null
  · subst null
    show ok none = ok result ↔ _
    rw [ok.injEq]
    exact ⟨fun same => Or.inl ⟨rfl, same.symm⟩, fun either => either.elim (fun both => both.2.symm)
      fun both => absurd rfl both.1⟩
  · have present : optional value read = (read value).map some := by
      cases value with
      | null => exact absurd rfl null
      | _ => rfl
    rw [present, map_eq_ok]
    constructor
    · rintro ⟨inner, found, same⟩
      exact Or.inr ⟨null, inner, found, same.symm⟩
    · rintro (both | ⟨-, inner, found, same⟩)
      · exact absurd both.1 null
      · exact ⟨inner, found, same.symm⟩

variable {write : Value → Json}

theorem optional_written {value : Option Value}
    (each : ∀ inner, value = some inner → write inner ≠ .null ∧ read (write inner) = .ok inner) :
    optional (optionJson write value) read = .ok value := by
  cases value with
  | none => rfl
  | some inner =>
    obtain ⟨present, found⟩ := each inner rfl
    exact optional_ok.mpr (Or.inr ⟨present, inner, found, rfl⟩)

theorem optionJson_readable {value : Option Value}
    (each : ∀ inner, value = some inner → (write inner).Readable numbers) :
    (optionJson write value).Readable numbers := by
  cases value with
  | none => trivial
  | some inner => exact each inner rfl

theorem optionJson_distinct {value : Option Value} (each : ∀ inner, (write inner).distinct = true) :
    (optionJson write value).distinct = true := by
  cases value with
  | none => rfl
  | some inner => exact each inner

theorem optionJson_finite {value : Option Value} (each : ∀ inner, (write inner).finite = true) :
    (optionJson write value).finite = true := by
  cases value with
  | none => rfl
  | some inner => exact each inner

theorem optionJson_arranged {value : Option Value} {style : Style}
    (each : ∀ inner, (write inner).arranged style = write inner) :
    (optionJson write value).arranged style = optionJson write value := by
  cases value with
  | none => rfl
  | some inner => exact each inner

theorem sampleIdentity_ok {groupId sampleIndex : ℕ} {identity : Text}
    (found : sampleIdentity runtime value groupId sampleIndex = .ok identity) :
    identity ≠ [] ∧ (Loaded runtime value → Plain identity) := by
  cases value with
  | null =>
    unfold sampleIdentity at found
    split_ifs at found
    cases found
    refine ⟨fun none_ => (by simp at none_), fun _ => scalar_plain fun code mem => ?_⟩
    have isDigit : ∀ number : ℕ, ∀ code ∈ codes (Nat.toDigits 10 number), 48 ≤ code ∧ code ≤ 57 := by
      intro number
      exact forall_mem_map.mpr fun _ there => of_decide_eq_true (digit_toDigits there)
    rcases mem_append.mp mem with mem | mem
    · have := isDigit _ _ mem
      omega
    · rcases mem_cons.mp mem with rfl | mem
      · omega
      · have := isDigit _ _ mem
        omega
  | str value =>
    have found : nonempty (.str value) "trajectory requires sample identity" = .ok identity := found
    obtain ⟨same, some_⟩ := nonempty_ok.mp found
    exact ⟨some_, fun loaded => str.inj same ▸ loaded.1⟩
  | _ => cases found

end TinyDSV41.Records
