/-
**What is known of values that are read, and of texts that are written.**

* `dumps_printable` — the text of a value has printable ASCII characters only.
* `loads_readable` — a value that is read may be written and read again.
* `Json.distinct`, `Json.finite` — no object has a key twice; all numbers are finite.
* `arranged_arranged`, `dumps_arranged` — arranging the keys twice is arranging them once, and does not change
  the text.
-/

import TinyDSV41.Lib.JsonText
import Mathlib.Data.Bool.AllAny

namespace TinyDSV41.Lib

open List Json
open Bool (and_eq_true)
open Option (bind_eq_some_iff map_eq_some_iff some)

/-! ### Printable texts -/

def Printable (character : Char) : Prop := 32 ≤ character.toNat ∧ character.toNat ≤ 126

instance (character : Char) : Decidable (Printable character) := inferInstanceAs (Decidable (_ ∧ _))

theorem escapeUnit_printable {unit : ℕ} : ∀ character ∈ escapeUnit unit, Printable character := by
  have hex : ∀ digit < 16, Printable (Nat.digitChar digit) := by decide
  intro character mem
  unfold escapeUnit at mem
  simp only [mem_cons, not_mem_nil, or_false] at mem
  rcases mem with rfl | rfl | rfl | rfl | rfl | rfl
  · exact ⟨by decide, by decide⟩
  · exact ⟨by decide, by decide⟩
  all_goals exact hex _ (Nat.mod_lt _ (by decide))

theorem escape_printable (code : ℕ) : ∀ character ∈ escape code, Printable character := by
  intro character mem
  unfold escape at mem
  have two : ∀ {first second : Char}, Printable first → Printable second → character ∈ [first, second] →
      Printable character := by
    intro first second one other mem
    rcases mem_cons.mp mem with rfl | mem
    · exact one
    · rw [mem_singleton.mp mem]
      exact other
  split_ifs at mem with _ _ _ _ _ _ _ plain
  all_goals first
    | exact two ⟨by decide, by decide⟩ ⟨by decide, by decide⟩ mem
    | exact escapeUnit_printable character mem
    | skip
  · rw [mem_singleton.mp mem]
    unfold Printable
    rw [toNat_ofNat (by omega)]
    exact plain
  · rcases mem_append.mp mem with mem | mem
    all_goals exact escapeUnit_printable character mem

theorem quote_printable (value : Text) : ∀ character ∈ quote value, Printable character := by
  have mark : Printable '"' := ⟨by decide, by decide⟩
  refine forall_mem_cons.mpr ⟨mark, fun character mem => ?_⟩
  rcases mem_append.mp mem with mem | mem
  · obtain ⟨code, -, mem⟩ := mem_flatMap.mp mem
    exact escape_printable code character mem
  · rw [mem_singleton.mp mem]
    exact mark

theorem mem_intercalate {separator : List Char} {pieces : List (List Char)} {character : Char}
    (mem : character ∈ separator.intercalate pieces) :
    character ∈ separator ∨ ∃ piece ∈ pieces, character ∈ piece := by
  induction pieces with
  | nil => cases mem
  | cons piece rest known =>
    cases rest with
    | nil =>
      rw [intercalate_singleton] at mem
      exact Or.inr ⟨piece, mem_cons_self, mem⟩
    | cons next rest =>
      rw [intercalate_cons_cons] at mem
      rcases mem_append.mp mem with mem | mem
      · rcases mem_append.mp mem with mem | mem
        · exact Or.inr ⟨piece, mem_cons_self, mem⟩
        · exact Or.inl mem
      · rcases known mem with here | ⟨piece, there, mem⟩
        · exact Or.inl here
        · exact Or.inr ⟨piece, mem_cons_of_mem _ there, mem⟩

variable {value : Json}

/-- **The text of a value is printable.** -/
theorem dumps_printable
    (items : (style.item.all fun character => Printable character) = true)
    (keys : (style.key.all fun character => Printable character) = true)
    (readable : value.Readable numbers) : ∀ character ∈ dumps style value, Printable character := by
  have item := all_iff_forall_prop.mp items
  have key := all_iff_forall_prop.mp keys
  induction value using byParts with
  | null =>
    show ∀ character ∈ "null".toList, Printable character
    exact all_iff_forall_prop.mp (by decide)
  | bool value =>
    cases value with
    | false =>
      show ∀ character ∈ "false".toList, Printable character
      exact all_iff_forall_prop.mp (by decide)
    | true =>
      show ∀ character ∈ "true".toList, Printable character
      exact all_iff_forall_prop.mp (by decide)
  | int value =>
    rw [dumps, int_text]
    intro character mem
    rcases mem_append.mp mem with mem | mem
    · split_ifs at mem
      · rw [mem_singleton.mp mem]
        exact ⟨by decide, by decide⟩
      · cases mem
    · have isDigit : 48 ≤ character.toNat ∧ character.toNat ≤ 57 := of_decide_eq_true (digit_toDigits mem)
      exact ⟨by omega, by omega⟩
  | float value shortest =>
    obtain ⟨read, found, -, taken, -⟩ := readable.1 [] nofun
    obtain ⟨-, plain, -⟩ := readLiteral_taken found
    intro character mem
    have code : character.toNat ∈ read.taken := by
      rw [taken]
      exact mem_map_of_mem mem
    have := plain_range (plain _ code)
    exact ⟨by omega, by omega⟩
  | nonFinite constant =>
    have names : ∀ constant : NonFinite, ∀ character ∈ constant.name.toList, Printable character := by
      intro constant
      cases constant <;> exact all_iff_forall_prop.mp (by decide)
    exact names constant
  | str value => exact quote_printable value
  | list items known =>
    have readable := readableItems_iff.mp readable
    rw [dumps_list]
    refine forall_mem_cons.mpr ⟨⟨by decide, by decide⟩, fun character mem => ?_⟩
    rcases mem_append.mp mem with mem | mem
    · rcases mem_intercalate mem with mem | ⟨piece, there, mem⟩
      · exact item character mem
      · obtain ⟨value, within, rfl⟩ := mem_map.mp there
        exact known value within (readable value within) character mem
    · rw [mem_singleton.mp mem]
      exact ⟨by decide, by decide⟩
  | object entries known =>
    have readable := readableEntries_iff.mp readable
    rw [dumps_object]
    refine forall_mem_cons.mpr ⟨⟨by decide, by decide⟩, fun character mem => ?_⟩
    rcases mem_append.mp mem with mem | mem
    · rcases mem_intercalate mem with mem | ⟨piece, there, mem⟩
      · exact item character mem
      · obtain ⟨entry, within, rfl⟩ := mem_map.mp there
        have there := mem_order.mp within
        rcases mem_append.mp mem with mem | mem
        · rcases mem_append.mp mem with mem | mem
          · exact quote_printable entry.1 character mem
          · exact key character mem
        · exact known entry there (readable entry there).2 character mem
    · rw [mem_singleton.mp mem]
      exact ⟨by decide, by decide⟩

/-! ### Values that are read -/

/-- Code points that are no surrogates. -/
def Scalar (value : Text) : Prop := ∀ code ∈ value, code < 1114112 ∧ ¬ (55296 ≤ code ∧ code ≤ 57343)

theorem Scalar.suffix {first second : Text} (scalar : Scalar second) (suffix : first <:+ second) : Scalar first :=
  fun code member => scalar code (suffix.mem member)

theorem scalar_plain {value : Text} (scalar : Scalar value) : Plain value := by
  refine ⟨fun code mem => (scalar code mem).1, ?_⟩
  induction value using unpaired.induct with
  | case1 code next rest known =>
    obtain ⟨here, later⟩ := forall_mem_cons.mp scalar
    have high : isHigh code = false := decide_eq_false fun within => here.2 (by omega)
    rw [unpaired, high, known later]
    rfl
  | case2 value short =>
    unfold unpaired
    split
    · exact absurd rfl (short _ _ _)
    · rfl

/-- A unit of a literal in a text without surrogates. -/
structure Regular (unit : Bool × ℕ) : Prop where
  small : unit.2 < 1114112
  written : unit.1 = false → ¬ (55296 ≤ unit.2 ∧ unit.2 ≤ 57343)

theorem hexUnit_small {first second third fourth unit : ℕ} (found : hexUnit first second third fourth = some unit) :
    unit < 65536 := by
  have digit : ∀ {code value}, hexValue code = some value → value < 16 := by
    intro code value found
    unfold hexValue at found
    split_ifs at found
    all_goals
      cases found
      omega
  obtain ⟨one, first, found⟩ := bind_eq_some_iff.mp found
  obtain ⟨two, second, found⟩ := bind_eq_some_iff.mp found
  obtain ⟨three, third, found⟩ := bind_eq_some_iff.mp found
  obtain ⟨four, fourth, found⟩ := bind_eq_some_iff.mp found
  cases found
  have := digit first
  have := digit second
  have := digit third
  have := digit fourth
  omega

theorem unescape_plain {code value : ℕ} (found : unescape code = some value) : value < 128 := by
  unfold unescape at found
  split_ifs at found
  all_goals
    cases found
    omega

variable {read : List (Bool × ℕ)}

/-- What holds of the units that are written holds of all units that are read. -/
theorem readUnits_holds {holds : Bool × ℕ → Prop} (marked : ∀ unit < 65536, holds (true, unit))
    (short : ∀ code < 128, holds (false, code))
    (plain : ∀ code ∈ input, holds (false, code)) (found : readUnits input = some (read, rest)) :
    rest <:+ input ∧ ∀ unit ∈ read, holds unit := by
  induction input using readUnits.induct generalizing read rest with
  | case1 => cases found
  | case2 after =>
    cases found
    exact ⟨suffix_cons 34 _, nofun⟩
  | case3 first second third fourth after known =>
    obtain ⟨unit, value, found⟩ := bind_eq_some_iff.mp found
    obtain ⟨⟨units, left⟩, later, found⟩ := bind_eq_some_iff.mp found
    cases found
    have suffix : after <:+ 92 :: 117 :: first :: second :: third :: fourth :: after :=
      ⟨[92, 117, first, second, third, fourth], rfl⟩
    obtain ⟨inside, all⟩ := known (fun code member => plain code (suffix.mem member)) later
    exact ⟨inside.trans suffix, forall_mem_cons.mpr ⟨marked unit (hexUnit_small value), all⟩⟩
  | case4 code after other known =>
    rw [readUnits] at found
    · obtain ⟨value, escaped, found⟩ := bind_eq_some_iff.mp found
      obtain ⟨⟨units, left⟩, later, found⟩ := bind_eq_some_iff.mp found
      cases found
      have suffix : after <:+ 92 :: code :: after := ⟨[92, code], rfl⟩
      obtain ⟨inside, all⟩ := known (fun code member => plain code (suffix.mem member)) later
      exact ⟨inside.trans suffix, forall_mem_cons.mpr ⟨short value (unescape_plain escaped), all⟩⟩
    · exact other
  | case5 code after quote unicode backslash control =>
    rw [readUnits, if_pos control] at found
    · cases found
    · exact quote
    · exact unicode
    · exact backslash
  | case6 code after quote unicode backslash control known =>
    rw [readUnits, if_neg control] at found
    · obtain ⟨⟨units, left⟩, later, found⟩ := bind_eq_some_iff.mp found
      cases found
      obtain ⟨inside, all⟩ := known (fun code member => plain code (mem_cons_of_mem _ member)) later
      exact ⟨inside.trans (suffix_cons code after),
        forall_mem_cons.mpr ⟨plain code mem_cons_self, all⟩⟩
    · exact quote
    · exact unicode
    · exact backslash

theorem readUnits_regular (scalar : Scalar input)
    (found : readUnits input = some (read, rest)) : rest <:+ input ∧ ∀ unit ∈ read, Regular unit :=
  readUnits_holds (fun unit small => ⟨by dsimp only; omega, nofun⟩)
    (fun code small => ⟨by dsimp only; omega, fun _ => by dsimp only; omega⟩)
    (fun code mem => ⟨(scalar code mem).1, fun _ => (scalar code mem).2⟩) found

theorem unpaired_cons {code : ℕ} {value : Text} (rest : unpaired value = true)
    (apart : ∀ next ∈ value.head?, ¬ (isHigh code = true ∧ isLow next = true)) : unpaired (code :: value) = true := by
  cases value with
  | nil => rfl
  | cons next value =>
    have pair : (isHigh code && isLow next) = false :=
      Bool.eq_false_iff.mpr fun both => apart next rfl (and_eq_true _ _ ▸ both)
    rw [unpaired, pair, rest]
    rfl

theorem combine_first (unit : Bool × ℕ) (rest : List (Bool × ℕ)) :
    ∀ code ∈ (combine (unit :: rest)).head?, code = unit.2 ∨ 65536 ≤ code := by
  intro code mem
  cases rest with
  | nil =>
    cases mem
    exact Or.inl rfl
  | cons next rest =>
    rw [combine] at mem
    split_ifs at mem
    · have same := some.inj mem
      exact Or.inr (by omega)
    · exact Or.inl (some.inj mem).symm

/-- Units are combined to code points no two of which are a pair. -/
theorem combine_plain (regular : ∀ unit ∈ read, Regular unit) : Plain (combine read) := by
  induction read using combine.induct with
  | case1 => exact ⟨nofun, rfl⟩
  | case2 unit =>
    exact ⟨forall_mem_singleton.mpr (regular unit mem_cons_self).small, rfl⟩
  | case3 unit next rest pair known =>
    obtain ⟨small, unpaired_⟩ := known fun other mem =>
      regular other (mem_cons_of_mem _ (mem_cons_of_mem _ mem))
    rw [combine, if_pos pair]
    simp only [and_eq_true, isHigh, isLow, decide_eq_true_iff] at pair
    refine ⟨forall_mem_cons.mpr ⟨by omega, small⟩, unpaired_cons unpaired_ fun other _ both => ?_⟩
    have high : 55296 ≤ _ ∧ _ ≤ 56319 := of_decide_eq_true both.1
    omega
  | case4 unit next rest pair known =>
    obtain ⟨here, later⟩ := forall_mem_cons.mp regular
    obtain ⟨small, unpaired_⟩ := known later
    rw [combine, if_neg pair]
    refine ⟨forall_mem_cons.mpr ⟨here.small, small⟩, unpaired_cons unpaired_ fun code mem both => ?_⟩
    have high : 55296 ≤ unit.2 ∧ unit.2 ≤ 56319 := of_decide_eq_true both.1
    have low : 56320 ≤ code ∧ code ≤ 57343 := of_decide_eq_true both.2
    rcases combine_first next rest code mem with rfl | large
    · -- Surrogates are written in hexadecimal digits, and two of them are a pair.
      have marked : unit.1 = true := by
        by_contra plain
        exact here.written (Bool.eq_false_of_not_eq_true plain) (by omega)
      have marked' : next.1 = true := by
        by_contra plain
        exact (later next mem_cons_self).written (Bool.eq_false_of_not_eq_true plain) (by omega)
      exact pair (by rw [marked, marked', both.1, both.2]; rfl)
    · omega

theorem combine_small (small : ∀ unit ∈ read, unit.2 < 1114112) :
    ∀ code ∈ combine read, code < 1114112 := by
  induction read using combine.induct with
  | case1 => exact nofun
  | case2 unit => exact forall_mem_singleton.mpr (small unit mem_cons_self)
  | case3 unit next rest pair known =>
    rw [combine, if_pos pair]
    simp only [and_eq_true, isHigh, isLow, decide_eq_true_iff] at pair
    refine forall_mem_cons.mpr ⟨by omega, known fun other mem => ?_⟩
    exact small other (mem_cons_of_mem _ (mem_cons_of_mem _ mem))
  | case4 unit next rest pair known =>
    obtain ⟨here, later⟩ := forall_mem_cons.mp small
    rw [combine, if_neg pair]
    exact forall_mem_cons.mpr ⟨here, known later⟩

theorem readString_small {input rest value : Text} (small : ∀ code ∈ input, code < 1114112)
    (found : readString input = some (value, rest)) : rest <:+ input ∧ ∀ code ∈ value, code < 1114112 := by
  obtain ⟨⟨read, after⟩, ran, same⟩ := map_eq_some_iff.mp found
  cases same
  have all : after <:+ input ∧ ∀ unit ∈ read, unit.2 < 1114112 :=
    readUnits_holds (fun unit small => small.trans (by decide)) (fun code small => small.trans (by decide))
      small ran
  obtain ⟨suffix, all⟩ := all
  exact ⟨suffix, combine_small all⟩

theorem readString_plain {input rest value : Text} (scalar : Scalar input)
    (found : readString input = some (value, rest)) : rest <:+ input ∧ Plain value := by
  obtain ⟨⟨read, after⟩, ran, same⟩ := map_eq_some_iff.mp found
  cases same
  obtain ⟨suffix, regular⟩ := readUnits_regular scalar ran
  exact ⟨suffix, combine_plain regular⟩

theorem readLiteral_suffix {read : Literal} (found : readLiteral input = some read) :
    read.rest <:+ input := by
  obtain ⟨joined, -⟩ := readLiteral_taken found
  exact ⟨_, joined⟩

theorem readNumber_suffix
    (found : readNumber numbers input = some (value, rest)) : rest <:+ input := by
  obtain ⟨read, ran, same⟩ := bind_eq_some_iff.mp found
  have suffix := readLiteral_suffix ran
  split_ifs at same
  all_goals
    cases same
    exact suffix

theorem skip_suffix (input : Text) : skip input <:+ input := dropWhile_suffix _

theorem readWord_value {constants : Bool}
    (found : readWord constants input = some (value, rest)) :
    rest <:+ input ∧ (value = .null ∨ (∃ bool, value = .bool bool) ∨ ∃ constant, value = .nonFinite constant) := by
  obtain ⟨word, mem, found⟩ := exists_of_findSome?_eq_some found
  split_ifs at found
  cases found
  refine ⟨drop_suffix _ _, ?_⟩
  rcases mem_append.mp mem with mem | mem
  · simp only [mem_cons, not_mem_nil, or_false] at mem
    rcases mem with rfl | rfl | rfl
    · exact Or.inl rfl
    all_goals exact Or.inr (Or.inl ⟨_, rfl⟩)
  · split_ifs at mem
    · simp only [mem_cons, not_mem_nil, or_false] at mem
      rcases mem with rfl | rfl | rfl
      all_goals exact Or.inr (Or.inr ⟨_, rfl⟩)
    · cases mem

/-- The same numbers, with the constants. -/
def Numbers.loose (numbers : Numbers) : Numbers := { numbers with constants := true }

section Reading

variable (numbers : Numbers) {whole : Text} {good : Text → Prop} {holds : Json → Prop}
  (texts : ∀ {input rest value}, input <:+ whole → readString input = some (value, rest) → rest <:+ input ∧ good value)
  (number : ∀ {input rest value}, readNumber numbers input = some (value, rest) → holds value)
  (word : ∀ {input rest value}, readWord numbers.constants input = some (value, rest) → holds value)
  (text : ∀ value, good value → holds (.str value))
  (list : ∀ items : List Json, (∀ item ∈ items, holds item) → holds (.list items))
  (object : ∀ entries : List (Text × Json), (∀ entry ∈ entries, good entry.1 ∧ holds entry.2) →
    holds (.object entries))
include texts number word text list object

/-- What holds of the parts of a text that are read holds of all values that are read. -/
theorem parse_holds (fuel : ℕ) :
    (∀ {input rest value}, input <:+ whole → parseValue numbers fuel input = some (value, rest) →
      rest <:+ input ∧ holds value) ∧
    (∀ {input rest items}, input <:+ whole → parseItems numbers fuel input = some (items, rest) →
      rest <:+ input ∧ ∀ item ∈ items, holds item) ∧
    ∀ {input rest entries}, input <:+ whole → parseEntries numbers fuel input = some (entries, rest) →
      rest <:+ input ∧ ∀ entry ∈ entries, good entry.1 ∧ holds entry.2 := by
  have none_ : ∀ {Part : Type} {holds : Part → Prop}, ∀ part ∈ ([] : List Part), holds part :=
    nofun
  induction fuel with
  | zero =>
    exact ⟨nofun, nofun, nofun⟩
  | succ fuel known =>
    obtain ⟨values, items, entries⟩ := known
    refine ⟨fun {input rest value} within found => ?_, fun {input rest value} within found => ?_,
      fun {input rest value} within found => ?_⟩
    · rw [parseValue.eq_def] at found
      dsimp only at found
      split at found
      · -- A text.
        rename_i after
        obtain ⟨⟨read, left⟩, ran, same⟩ := map_eq_some_iff.mp found
        cases same
        obtain ⟨suffix, plain⟩ := texts ((suffix_cons 34 after).trans within) ran
        exact ⟨suffix.trans (suffix_cons 34 after), text _ plain⟩
      · -- A list.
        rename_i after
        have skipped := (skip_suffix after).trans (suffix_cons 91 after)
        split at found
        · rename_i left close
          cases found
          rw [close] at skipped
          exact ⟨(suffix_cons 93 _).trans skipped, list [] none_⟩
        · obtain ⟨⟨read, left⟩, ran, same⟩ := map_eq_some_iff.mp found
          cases same
          obtain ⟨suffix, all⟩ := items (skipped.trans within) ran
          exact ⟨suffix.trans skipped, list _ all⟩
      · -- An object.
        rename_i after
        have skipped := (skip_suffix after).trans (suffix_cons 123 after)
        split at found
        · rename_i left close
          cases found
          rw [close] at skipped
          exact ⟨(suffix_cons 125 _).trans skipped, object [] none_⟩
        · obtain ⟨⟨read, left⟩, ran, same⟩ := map_eq_some_iff.mp found
          cases same
          obtain ⟨suffix, all⟩ := entries (skipped.trans within) ran
          exact ⟨suffix.trans skipped, object _ all⟩
      · -- A word or a number.
        cases isWord : readWord numbers.constants input with
        | some read =>
          rw [isWord] at found
          cases found
          exact ⟨(readWord_value isWord).1, word isWord⟩
        | none =>
          rw [isWord] at found
          exact ⟨readNumber_suffix found, number found⟩
    · obtain ⟨⟨item, after⟩, ran, found⟩ := bind_eq_some_iff.mp found
      obtain ⟨suffix, here⟩ := values within ran
      have skipped := (skip_suffix after).trans suffix
      dsimp only at found
      split at found
      · rename_i left close
        cases found
        rw [close] at skipped
        exact ⟨(suffix_cons 93 _).trans skipped, forall_mem_singleton.mpr here⟩
      · rename_i left comma
        obtain ⟨⟨read, left'⟩, later, same⟩ := bind_eq_some_iff.mp found
        cases same
        rw [comma] at skipped
        have there := (skip_suffix left).trans ((suffix_cons 44 _).trans skipped)
        obtain ⟨suffix', others⟩ := items (there.trans within) later
        exact ⟨suffix'.trans there, forall_mem_cons.mpr ⟨here, others⟩⟩
      · cases found
    · rw [parseEntries.eq_def] at found
      dsimp only at found
      split at found
      · rename_i after
        obtain ⟨⟨key, behind⟩, ran, found⟩ := bind_eq_some_iff.mp found
        obtain ⟨suffix, plain⟩ := texts ((suffix_cons 34 after).trans within) ran
        have skipped := (skip_suffix behind).trans (suffix.trans (suffix_cons 34 after))
        split at found
        · rename_i left colon
          rw [colon] at skipped
          have there := (skip_suffix left).trans ((suffix_cons 58 _).trans skipped)
          obtain ⟨⟨item, after_⟩, ran, found⟩ := bind_eq_some_iff.mp found
          obtain ⟨suffix', here⟩ := values (there.trans within) ran
          have skipped' := (skip_suffix after_).trans (suffix'.trans there)
          split at found
          · rename_i left' close
            cases found
            rw [close] at skipped'
            exact ⟨(suffix_cons 125 _).trans skipped', forall_mem_singleton.mpr ⟨plain, here⟩⟩
          · rename_i left' comma
            obtain ⟨⟨read, left''⟩, later, same⟩ := bind_eq_some_iff.mp found
            cases same
            rw [comma] at skipped'
            have last := (skip_suffix left').trans ((suffix_cons 44 _).trans skipped')
            obtain ⟨suffix'', others⟩ := entries (last.trans within) later
            exact ⟨suffix''.trans last, forall_mem_cons.mpr ⟨⟨plain, here⟩, others⟩⟩
          · cases found
        · cases found
      · cases found

theorem loads_holds {value : Json} (found : loads numbers whole = some value) : holds value := by
  unfold loads at found
  split_ifs at found
  split at found
  · cases found
  · rename_i read rest ran
    split_ifs at found
    cases found
    exact ((parse_holds numbers texts number word text list object _).1 (skip_suffix whole) ran).2

end Reading

/-- **What is loaded may be written and loaded again**, with the constants. -/
theorem loads_readable (scalar : Scalar input)
    (found : loads numbers input = some value) : value.Readable numbers.loose := by
  refine loads_holds numbers (fun within => readString_plain (scalar.suffix within))
    (fun {input rest value} read => ?_) (fun {input rest value} read => ?_) (fun _ plain => plain)
    (fun _ all => readableItems_iff.mpr all) (fun _ all => readableEntries_iff.mpr all) found
  · rcases readNumber_value read with ⟨_, rfl, fits⟩ | ⟨_, _, rfl, readable⟩ | rfl | rfl
    · exact fits
    · exact readable
    · rfl
    · rfl
  · obtain ⟨-, rfl | ⟨_, rfl⟩ | ⟨_, rfl⟩⟩ := readWord_value read
    · exact trivial
    · exact trivial
    · exact rfl

/-- All texts of a value, and all its keys, are good. -/
inductive Json.Texts (good : Text → Prop) : Json → Prop
  | null : Texts good .null
  | bool (value : Bool) : Texts good (.bool value)
  | int (value : ℤ) : Texts good (.int value)
  | float (value : ℚ) (shortest : List Char) : Texts good (.float value shortest)
  | nonFinite (value : NonFinite) : Texts good (.nonFinite value)
  | str {value : Text} (holds : good value) : Texts good (.str value)
  | list {items : List Json} (holds : ∀ item ∈ items, Texts good item) : Texts good (.list items)
  | object {entries : List (Text × Json)} (keys : ∀ entry ∈ entries, good entry.1)
      (holds : ∀ entry ∈ entries, Texts good entry.2) : Texts good (.object entries)

theorem Json.Texts.get {good : Text → Prop} {value inner : Json} {key : String} (all : value.Texts good)
    (found : value.get key = some inner) : inner.Texts good := by
  cases all with
  | object _ holds =>
    obtain ⟨entry, there, rfl⟩ := map_eq_some_iff.mp found
    exact holds entry (mem_of_find?_eq_some there)
  | _ => cases found

theorem loads_small (small : ∀ code ∈ input, code < 1114112)
    (found : loads numbers input = some value) : value.Texts fun value => ∀ code ∈ value, code < 1114112 := by
  refine loads_holds numbers (fun within => readString_small (fun code member => small code (within.mem member)))
    (fun {input rest value} read => ?_) (fun {input rest value} read => ?_) (fun _ all => .str all)
    (fun _ all => .list all) (fun _ all => .object (fun entry there => (all entry there).1)
      fun entry there => (all entry there).2) found
  · rcases readNumber_value read with ⟨_, rfl, -⟩ | ⟨_, _, rfl, -⟩ | rfl | rfl
    · exact .int _
    · exact .float _ _
    all_goals exact .nonFinite _
  · obtain ⟨-, rfl | ⟨_, rfl⟩ | ⟨_, rfl⟩⟩ := readWord_value read
    · exact .null
    · exact .bool _
    · exact .nonFinite _

/-! ### Keys and numbers of values -/

mutual
def Json.distinct : Json → Bool
  | .list items => distinctItems items
  | .object entries => decide (entries.map Prod.fst).Nodup && distinctEntries entries
  | _ => true
def distinctItems : List Json → Bool
  | [] => true
  | item :: rest => item.distinct && distinctItems rest
def distinctEntries : List (Text × Json) → Bool
  | [] => true
  | (_, value) :: rest => value.distinct && distinctEntries rest
end

mutual
def Json.finite : Json → Bool
  | .nonFinite _ => false
  | .list items => finiteItems items
  | .object entries => finiteEntries entries
  | _ => true
def finiteItems : List Json → Bool
  | [] => true
  | item :: rest => item.finite && finiteItems rest
def finiteEntries : List (Text × Json) → Bool
  | [] => true
  | (_, value) :: rest => value.finite && finiteEntries rest
end

theorem distinctItems_iff {items : List Json} :
    distinctItems items = true ↔ ∀ item ∈ items, item.distinct = true := by
  induction items with
  | nil => exact ⟨nofun, fun _ => rfl⟩
  | cons item rest known => rw [distinctItems, and_eq_true, known, forall_mem_cons]

theorem distinctEntries_iff :
    distinctEntries entries = true ↔ ∀ entry ∈ entries, entry.2.distinct = true := by
  induction entries with
  | nil => exact ⟨nofun, fun _ => rfl⟩
  | cons entry rest known => rw [distinctEntries, and_eq_true, known, forall_mem_cons]

theorem distinct_object : (Json.object entries).distinct = true ↔
    (entries.map Prod.fst).Nodup ∧ ∀ entry ∈ entries, entry.2.distinct = true := by
  rw [distinct, and_eq_true, decide_eq_true_iff, distinctEntries_iff]

theorem finiteItems_iff {items : List Json} : finiteItems items = true ↔ ∀ item ∈ items, item.finite = true := by
  induction items with
  | nil => exact ⟨nofun, fun _ => rfl⟩
  | cons item rest known => rw [finiteItems, and_eq_true, known, forall_mem_cons]

theorem finiteEntries_iff :
    finiteEntries entries = true ↔ ∀ entry ∈ entries, entry.2.finite = true := by
  induction entries with
  | nil => exact ⟨nofun, fun _ => rfl⟩
  | cons entry rest known => rw [finiteEntries, and_eq_true, known, forall_mem_cons]

theorem readable_finite (readable : value.Readable numbers.loose)
    (finite : value.finite = true) : value.Readable numbers := by
  induction value using byParts with
  | null | bool => trivial
  | int | float | str => exact readable
  | nonFinite => cases finite
  | list items known =>
    exact readableItems_iff.mpr fun item mem =>
      known item mem (readableItems_iff.mp readable item mem) (finiteItems_iff.mp finite item mem)
  | object entries known =>
    refine readableEntries_iff.mpr fun entry mem => ?_
    obtain ⟨plain, value⟩ := readableEntries_iff.mp readable entry mem
    exact ⟨plain, known entry mem value (finiteEntries_iff.mp finite entry mem)⟩

theorem loose_readable (readable : value.Readable numbers) :
    value.Readable numbers.loose := by
  induction value using byParts with
  | null | bool => trivial
  | int | float | str => exact readable
  | nonFinite => rfl
  | list items known =>
    exact readableItems_iff.mpr fun item mem => known item mem (readableItems_iff.mp readable item mem)
  | object entries known =>
    refine readableEntries_iff.mpr fun entry mem => ?_
    obtain ⟨plain, value⟩ := readableEntries_iff.mp readable entry mem
    exact ⟨plain, known entry mem value⟩

/-! ### Arranging -/

variable (style : Style) (entries : List (Text × Json))

theorem order_order :
    style.order (style.order entries) = style.order entries := by
  unfold Style.order
  split_ifs
  · exact List.Pairwise.insertionSort_eq (pairwise_insertionSort _ entries)
  · rfl

theorem arranged_arranged (value : Json) :
    (value.arranged style).arranged style = value.arranged style := by
  induction value using byParts with
  | list items known =>
    rw [arranged, arranged, arrangedItems_map, arrangedItems_map, map_map]
    exact congrArg list (map_congr_left known)
  | object entries known =>
    rw [arranged, arranged, arrangedEntries_map, order_map, arrangedEntries_map, order_map,
      order_map, order_order, map_map]
    refine congrArg Json.object (map_congr_left fun entry mem => ?_)
    exact Prod.ext rfl (known entry (mem_order.mp mem))
  | null | bool | int | float | nonFinite | str => rfl

theorem dumps_arranged (value : Json) : dumps style (value.arranged style) = dumps style value := by
  induction value using byParts with
  | list items known =>
    have texts : items.map (dumps style ∘ arranged style) = items.map (dumps style) :=
      map_congr_left known
    rw [arranged, arrangedItems_map, dumps_list, dumps_list, map_map, texts]
  | object entries known =>
    rw [arranged, arrangedEntries_map, order_map, dumps_object, dumps_object, order_map, order_order,
      map_map]
    have texts : (style.order entries).map (entryText style ∘ fun entry => (entry.1, entry.2.arranged style))
        = (style.order entries).map (entryText style) :=
      map_congr_left fun entry mem => by
        show quote entry.1 ++ style.key ++ dumps style (entry.2.arranged style) = _
        rw [known entry (mem_order.mp mem)]
        rfl
    rw [texts]
  | null | bool | int | float | nonFinite | str => rfl

variable {style} in
theorem arranged_unsorted (unsorted : style.sorted = false) (value : Json) :
    value.arranged style = value := by
  induction value using byParts with
  | list items known =>
    rw [arranged, arrangedItems_map]
    exact congrArg list ((map_congr_left known).trans (map_id items))
  | object entries known =>
    rw [arranged, arrangedEntries_map]
    unfold Style.order
    rw [if_neg (by rw [unsorted]; exact Bool.false_ne_true)]
    refine congrArg Json.object ((map_congr_left fun entry mem => ?_).trans (map_id entries))
    exact Prod.ext rfl (known entry mem)
  | null | bool | int | float | nonFinite | str => rfl

theorem arranged_readable (readable : value.Readable numbers) :
    (value.arranged style).Readable numbers := by
  induction value using byParts with
  | list items known =>
    rw [arranged, arrangedItems_map]
    refine readableItems_iff.mpr fun item mem => ?_
    obtain ⟨item, there, rfl⟩ := mem_map.mp mem
    exact known item there (readableItems_iff.mp readable item there)
  | object entries known =>
    rw [arranged, arrangedEntries_map, order_map]
    refine readableEntries_iff.mpr fun entry mem => ?_
    obtain ⟨entry, within, rfl⟩ := mem_map.mp mem
    have there := mem_order.mp within
    obtain ⟨plain, value⟩ := readableEntries_iff.mp readable entry there
    exact ⟨plain, known entry there value⟩
  | null | bool | int | float | nonFinite | str => exact readable

theorem order_perm : (style.order entries).Perm entries := by
  unfold Style.order
  split_ifs
  · exact perm_insertionSort _ entries
  · exact List.Perm.refl entries

theorem arranged_distinct (distinct : value.distinct = true) :
    (value.arranged style).distinct = true := by
  induction value using byParts with
  | list items known =>
    rw [arranged, arrangedItems_map]
    refine distinctItems_iff.mpr fun item mem => ?_
    obtain ⟨item, there, rfl⟩ := mem_map.mp mem
    exact known item there (distinctItems_iff.mp distinct item there)
  | object entries known =>
    obtain ⟨keys, values⟩ := distinct_object.mp distinct
    rw [arranged, arrangedEntries_map, order_map]
    refine distinct_object.mpr ⟨?_, fun entry mem => ?_⟩
    · rw [map_map]
      exact ((order_perm style entries).map Prod.fst).nodup_iff.mpr keys
    · obtain ⟨entry, within, rfl⟩ := mem_map.mp mem
      exact known entry (mem_order.mp within) (values entry (mem_order.mp within))
  | null | bool | int | float | nonFinite | str => rfl

/-- `json.loads` that refuses constants and keys that occur twice. -/
def strictLoads (numbers : Numbers) (input : Text) : Option Json :=
  (loads numbers.strict input).filter distinct

variable {style} in
theorem strictLoads_dumps (separates : style.Separates)
    (readable : value.Readable numbers.strict) (distinct : value.distinct = true) :
    strictLoads numbers (codes (dumps style value)) = some (value.arranged style) := by
  unfold strictLoads
  rw [loads_dumps separates readable, Option.filter_some, if_pos (arranged_distinct style distinct)]

end TinyDSV41.Lib
