/-
**Reading the literals of texts and numbers.**

How the literals of floats are read, and how many digits an integer may have, are parameters.

* `readString_quote` — the literal of a text is read as that text, if no two of its code points are a pair.
* `readNumber_int`, `readNumber_float` — so are the literals of numbers, if a float is written as one that is.
-/

import TinyDSV41.Lib.Json
import Mathlib.Data.List.TakeWhile

namespace TinyDSV41.Lib

open List Char
open Option (bind_eq_bind bind_some)
open Nat (digitChar mod_lt toDigits)

def codes (characters : List Char) : Text := characters.map toNat

@[simp] theorem codes_nil : codes [] = [] := rfl

@[simp] theorem codes_cons (character : Char) (rest : List Char) :
    codes (character :: rest) = character.toNat :: codes rest := rfl

@[simp] theorem codes_append (first second : List Char) : codes (first ++ second) = codes first ++ codes second :=
  map_append

theorem codes_length : (codes characters).length = characters.length := length_map _

theorem codes_injective : Function.Injective codes :=
  map_injective_iff.mpr fun _ _ same => toNat_inj.mp same

theorem toDigits_inj {first second : ℕ} (same : toDigits 10 first = toDigits 10 second) :
    first = second := by
  have values := congrArg (Nat.ofDigitChars 10 · 0) same
  simpa using values

theorem ofNat_codes : (codes characters).map ofNat = characters := by
  unfold codes
  rw [map_map]
  refine (map_congr_left fun character _ => ?_).trans (map_id characters)
  exact ofNat_toNat character

variable {code : ℕ}

theorem toNat_ofNat (small : code < 128) : (ofNat code).toNat = code := by
  revert code
  decide

/-! ### Literals of texts -/

def isHigh (code : ℕ) : Bool := decide (55296 ≤ code ∧ code ≤ 56319)

def isLow (code : ℕ) : Bool := decide (56320 ≤ code ∧ code ≤ 57343)

def hexValue (code : ℕ) : Option ℕ :=
  if 48 ≤ code ∧ code ≤ 57 then some (code - 48)
  else if 97 ≤ code ∧ code ≤ 102 then some (code - 87)
  else if 65 ≤ code ∧ code ≤ 70 then some (code - 55)
  else none

def hexUnit (first second third fourth : ℕ) : Option ℕ := do
  let first ← hexValue first
  let second ← hexValue second
  let third ← hexValue third
  let fourth ← hexValue fourth
  return first * 4096 + second * 256 + third * 16 + fourth

/-- What stands for itself or a control character behind a backslash. -/
def unescape (code : ℕ) : Option ℕ :=
  if code = 34 ∨ code = 92 ∨ code = 47 then some code
  else if code = 98 then some 8
  else if code = 102 then some 12
  else if code = 110 then some 10
  else if code = 114 then some 13
  else if code = 116 then some 9
  else none

/-- The code points up to the closing quote; a unit that is written in hexadecimal digits is marked. -/
def readUnits : Text → Option (List (Bool × ℕ) × Text)
  | [] => none
  | 34 :: rest => some ([], rest)
  | 92 :: 117 :: first :: second :: third :: fourth :: rest => do
      let unit ← hexUnit first second third fourth
      let (units, rest) ← readUnits rest
      return ((true, unit) :: units, rest)
  | 92 :: code :: rest => do
      let code ← unescape code
      let (units, rest) ← readUnits rest
      return ((false, code) :: units, rest)
  | code :: rest =>
    -- A control character, or a backslash at the end.
    if code < 32 ∨ code = 92 then none
    else do
      let (units, rest) ← readUnits rest
      return ((false, code) :: units, rest)

def combine : List (Bool × ℕ) → Text
  | [] => []
  | [unit] => [unit.2]
  | unit :: next :: rest =>
    if unit.1 && next.1 && isHigh unit.2 && isLow next.2 then
      (65536 + (unit.2 - 55296) * 1024 + (next.2 - 56320)) :: combine rest
    else unit.2 :: combine (next :: rest)

def readString (input : Text) : Option (Text × Text) :=
  (readUnits input).map fun read => (combine read.1, read.2)

/-- No two code points are a pair of surrogates. -/
def unpaired : Text → Bool
  | code :: next :: rest => !(isHigh code && isLow next) && unpaired (next :: rest)
  | _ => true

/-- Code points, no two of them a pair of surrogates. -/
def Plain (value : Text) : Prop := (∀ code ∈ value, code < 1114112) ∧ unpaired value = true

instance (value : Text) : Decidable (Plain value) := inferInstanceAs (Decidable (_ ∧ _))

def units (code : ℕ) : List (Bool × ℕ) :=
  if code = 34 ∨ code = 92 ∨ code = 8 ∨ code = 9 ∨ code = 10 ∨ code = 12 ∨ code = 13 then [(false, code)]
  else if 32 ≤ code ∧ code ≤ 126 then [(false, code)]
  else if code < 65536 then [(true, code)]
  else [(true, 55296 + (code - 65536) / 1024), (true, 56320 + (code - 65536) % 1024)]

theorem hexValue_digitChar {digit : ℕ} (small : digit < 16) : hexValue (digitChar digit).toNat = some digit := by
  revert digit
  decide

theorem readUnits_escapeUnit {unit : ℕ} (small : unit < 65536) (rest : Text) :
    readUnits (codes (escapeUnit unit) ++ rest)
      = (readUnits rest).map fun read => ((true, unit) :: read.1, read.2) := by
  have value : hexUnit (digitChar (unit / 4096 % 16)).toNat (digitChar (unit / 256 % 16)).toNat
      (digitChar (unit / 16 % 16)).toNat (digitChar (unit % 16)).toNat = some unit := by
    unfold hexUnit
    rw [hexValue_digitChar (mod_lt _ (by decide)), hexValue_digitChar (mod_lt _ (by decide)),
      hexValue_digitChar (mod_lt _ (by decide)), hexValue_digitChar (mod_lt _ (by decide))]
    show some _ = some unit
    congr 1
    omega
  show readUnits (92 :: 117 :: _ :: _ :: _ :: _ :: rest) = _
  rw [readUnits, value]
  cases readUnits rest <;> rfl

theorem readUnits_short {value : ℕ} (short : unescape code = some value) (differs : code ≠ 117)
    (rest : Text) :
    readUnits (92 :: code :: rest) = (readUnits rest).map fun read => ((false, value) :: read.1, read.2) := by
  rw [readUnits]
  · rw [short]
    cases readUnits rest <;> rfl
  · intro _ _ _ _ _ same
    exact absurd same differs

theorem readUnits_plain (printable : 32 ≤ code) (quote : code ≠ 34) (backslash : code ≠ 92)
    (rest : Text) :
    readUnits (code :: rest) = (readUnits rest).map fun read => ((false, code) :: read.1, read.2) := by
  rw [readUnits]
  · rw [if_neg (by omega)]
    cases readUnits rest <;> rfl
  · exact quote
  · intro _ _ _ _ _ same
    exact absurd same backslash
  · intro _ _ same
    exact absurd same backslash

theorem readUnits_escape (small : code < 1114112) (rest : Text) : readUnits (codes (escape code) ++ rest)
      = (readUnits rest).map fun read => (units code ++ read.1, read.2) := by
  by_cases named : code = 34 ∨ code = 92 ∨ code = 8 ∨ code = 9 ∨ code = 10 ∨ code = 12 ∨ code = 13
  · rcases named with rfl | rfl | rfl | rfl | rfl | rfl | rfl
    all_goals exact readUnits_short rfl (by decide) rest
  · unfold escape units
    rw [if_neg named]
    push Not at named
    obtain ⟨quote, backslash, back, tab, line, feed, carriage⟩ := named
    rw [if_neg quote, if_neg backslash, if_neg back, if_neg tab, if_neg line, if_neg feed, if_neg carriage]
    by_cases printable : 32 ≤ code ∧ code ≤ 126
    · have same : codes [ofNat code] = [code] := by
        rw [codes_cons, codes_nil, toNat_ofNat (by omega)]
      rw [if_pos printable, if_pos printable, same]
      exact readUnits_plain printable.1 quote backslash rest
    · rw [if_neg printable, if_neg printable]
      by_cases basic : code < 65536
      · rw [if_pos basic, if_pos basic]
        exact readUnits_escapeUnit basic rest
      · rw [if_neg basic, if_neg basic, codes_append, append_assoc,
          readUnits_escapeUnit (by omega), readUnits_escapeUnit (by omega)]
        cases readUnits rest <;> rfl

variable {value : Text}

theorem readUnits_quote (small : ∀ code ∈ value, code < 1114112) (rest : Text) :
    readUnits (codes (value.flatMap escape ++ ['"']) ++ rest) = some (value.flatMap units, rest) := by
  induction value with
  | nil =>
    rfl
  | cons code value known =>
    obtain ⟨here, later⟩ := forall_mem_cons.mp small
    rw [flatMap_cons, append_assoc, codes_append, append_assoc, readUnits_escape here,
      known later]
    rfl

theorem units_low (small : code < 1114112) {unit : Bool × ℕ} {more : List (Bool × ℕ)}
    (split : units code = unit :: more) (low : isLow unit.2 = true) : isLow code = true := by
  unfold units at split
  unfold isLow at *
  rw [decide_eq_true_iff] at *
  split_ifs at split
  all_goals
    obtain ⟨rfl, -⟩ := cons.inj split
    omega

theorem combine_units (plain : Plain value) : combine (value.flatMap units) = value := by
  obtain ⟨small, apart⟩ := plain
  induction value with
  | nil => rfl
  | cons code value known =>
    obtain ⟨here, later⟩ := forall_mem_cons.mp small
    have tail : unpaired value = true := by
      cases value with
      | nil => rfl
      | cons other value => exact (Bool.and_eq_true _ _ ▸ apart).2
    have next := known later tail
    rw [flatMap_cons]
    by_cases pair : 65536 ≤ code
    · have both : units code = [(true, 55296 + (code - 65536) / 1024), (true, 56320 + (code - 65536) % 1024)] := by
        unfold units
        rw [if_neg (by omega), if_neg (by omega), if_neg (by omega)]
      have high : isHigh (55296 + (code - 65536) / 1024) = true := decide_eq_true (by omega)
      have low : isLow (56320 + (code - 65536) % 1024) = true := decide_eq_true (by omega)
      rw [both, cons_append, cons_append, nil_append, combine]
      rw [high, low, Bool.and_self, Bool.and_self, Bool.and_self, if_pos rfl, next]
      have joined : 65536 + (55296 + (code - 65536) / 1024 - 55296) * 1024
          + (56320 + (code - 65536) % 1024 - 56320) = code := by omega
      rw [joined]
    · have one : ∃ marked, units code = [(marked, code)] := by
        unfold units
        split_ifs with _ _ basic
        · exact ⟨_, rfl⟩
        · exact ⟨_, rfl⟩
        · exact ⟨_, rfl⟩
        · exact absurd (by omega) basic
      obtain ⟨marked, one⟩ := one
      rw [one, singleton_append]
      cases value with
      | nil => rfl
      | cons other value =>
        have some_ : ∃ unit more, units other = unit :: more := by
          unfold units
          split_ifs <;> exact ⟨_, _, rfl⟩
        obtain ⟨unit, more, first⟩ := some_
        rw [flatMap_cons, first, cons_append] at next ⊢
        rw [combine, if_neg, next]
        rw [Bool.and_eq_true, Bool.and_eq_true, Bool.and_eq_true]
        rintro ⟨⟨_, high⟩, low⟩
        have both := (Bool.and_eq_true _ _ ▸ apart).1
        rw [high, units_low (forall_mem_cons.mp later).1 first low] at both
        cases both

theorem readString_quote (plain : Plain value) (rest : Text) :
    ∃ input, codes (quote value) ++ rest = 34 :: input ∧ readString input = some (value, rest) := by
  refine ⟨codes (value.flatMap escape ++ ['"']) ++ rest, rfl, ?_⟩
  unfold readString
  rw [readUnits_quote plain.1, Option.map_some, combine_units plain]

/-! ### Literals of numbers -/

def digit (code : ℕ) : Bool := decide (48 ≤ code ∧ code ≤ 57)

/-- `-?` -/
def readSign : Text → Text × Text
  | 45 :: rest => ([45], rest)
  | input => ([], input)

/-- `0|[1-9][0-9]*` -/
def readWhole : Text → Option (Text × Text)
  | 48 :: rest => some ([48], rest)
  | code :: rest =>
    if digit code then some (code :: rest.takeWhile digit, rest.dropWhile digit) else none
  | [] => none

/-- `(\.[0-9]+)?` -/
def readFraction : Text → Text × Text
  | 46 :: code :: rest =>
    if digit code then (46 :: code :: rest.takeWhile digit, rest.dropWhile digit) else ([], 46 :: code :: rest)
  | input => ([], input)

/-- `[-+]?` -/
def readExponentSign : Text → Text × Text
  | code :: rest => if code = 43 ∨ code = 45 then ([code], rest) else ([], code :: rest)
  | [] => ([], [])

/-- `([eE][-+]?[0-9]+)?` -/
def readExponent : Text → Text × Text
  | [] => ([], [])
  | code :: rest =>
    if code = 101 ∨ code = 69 then
      match (readExponentSign rest).2 with
      | first :: more =>
        if digit first then
          (code :: ((readExponentSign rest).1 ++ first :: more.takeWhile digit), more.dropWhile digit)
        else ([], code :: rest)
      | [] => ([], code :: rest)
    else ([], code :: rest)

/-- The parts of the literal of a number, and what follows. -/
structure Literal where
  sign : Text
  whole : Text
  fraction : Text
  exponent : Text
  rest : Text

def Literal.taken (read : Literal) : Text := read.sign ++ read.whole ++ read.fraction ++ read.exponent

def readLiteral (input : Text) : Option Literal := do
  let sign := readSign input
  let whole ← readWhole sign.2
  let fraction := readFraction whole.2
  let exponent := readExponent fraction.2
  return ⟨sign.1, whole.1, fraction.1, exponent.1, exponent.2⟩

/-- No character that may continue a number. -/
def Ends (rest : Text) : Prop :=
  ∀ code ∈ rest.head?, digit code = false ∧ code ≠ 46 ∧ code ≠ 101 ∧ code ≠ 69

def FloatLiteral (literal : List Char) : Prop :=
  ∀ rest, Ends rest → ∃ read, readLiteral (codes literal ++ rest) = some read ∧ read.rest = rest ∧
    read.taken = codes literal ∧ (read.fraction ≠ [] ∨ read.exponent ≠ [])

/-- How numbers are read: a float is written as a literal that is read as it again. -/
structure Numbers where
  /-- What the literal of a float is read as. -/
  float : List Char → Json
  /-- How many digits an integer may have; 0 for any number of them. -/
  digits : ℕ
  /-- Whether the constants for numbers that are not finite are read. -/
  constants : Bool
  floats : ∀ literal, FloatLiteral literal →
    (∃ value shortest, float literal = .float value shortest ∧ FloatLiteral shortest ∧
      float shortest = .float value shortest) ∨
    float literal = .nonFinite .infinity ∨ float literal = .nonFinite .negInfinity

def Numbers.strict (numbers : Numbers) : Numbers := { numbers with constants := false }

/-- An integer that has no more digits than it may have. -/
def Numbers.Fits (numbers : Numbers) (value : ℤ) : Prop :=
  numbers.digits = 0 ∨ (toDigits 10 value.natAbs).length ≤ numbers.digits

instance (numbers : Numbers) (value : ℤ) : Decidable (numbers.Fits value) := inferInstanceAs (Decidable (_ ∨ _))

def wholeValue (whole : Text) : ℕ := Nat.ofDigitChars 10 (whole.map ofNat) 0

def readNumber (numbers : Numbers) (input : Text) : Option (Json × Text) := do
  let read ← readLiteral input
  if read.fraction = [] ∧ read.exponent = [] then
    if numbers.digits ≠ 0 ∧ numbers.digits < read.whole.length then none
    else
      return (.int (if read.sign = [] then wholeValue read.whole else -(wholeValue read.whole : ℤ)), read.rest)
  else
    return (numbers.float (read.taken.map ofNat), read.rest)

variable (value : ℕ)

theorem toDigits_cons : ∃ first more, toDigits 10 value = first :: more ∧
    (first = '0' → value = 0) := by
  induction value using Nat.strong_induction_on with
  | _ value known =>
    by_cases small : value < 10
    · refine ⟨_, [], Nat.toDigits_of_lt_base small, fun zero => ?_⟩
      have code := congrArg toNat zero
      rw [Nat.toNat_digitChar_of_lt_ten small] at code
      have code : 48 + value = 48 := code
      omega
    · obtain ⟨first, more, split, zero⟩ := known (value / 10) (by omega)
      rw [Nat.toDigits_of_base_le (by decide) (by omega), split]
      exact ⟨first, more ++ [_], rfl, fun same => absurd (zero same) (by omega)⟩

theorem digit_toDigits {value : ℕ} {character : Char} (mem : character ∈ toDigits 10 value) :
    digit character.toNat = true := by
  have isDigit := Nat.isDigit_of_mem_toDigits (by decide) (by decide) mem
  rw [isDigit_iff_toNat] at isDigit
  exact decide_eq_true isDigit

def Stops (rest : Text) : Prop := ∀ code ∈ rest.head?, digit code = false

variable {rest : Text}

theorem Ends.stops (ends : Ends rest) : Stops rest := fun code mem => (ends code mem).1

theorem span_digits (digits : Text) (all : ∀ code ∈ digits, digit code = true) (stops : Stops rest) :
    (digits ++ rest).takeWhile digit = digits ∧ (digits ++ rest).dropWhile digit = rest := by
  have stop : rest.takeWhile digit = [] ∧ rest.dropWhile digit = rest := by
    cases rest with
    | nil => exact ⟨rfl, rfl⟩
    | cons code rest =>
      have stops := stops code rfl
      exact ⟨takeWhile_cons_of_neg (by rw [stops]; exact Bool.false_ne_true),
        dropWhile_cons_of_neg (by rw [stops]; exact Bool.false_ne_true)⟩
  rw [takeWhile_append_of_pos all, dropWhile_append_of_pos all, stop.1, stop.2, append_nil]
  exact ⟨rfl, rfl⟩

theorem readWhole_digits (ends : Ends rest) :
    readWhole (codes (toDigits 10 value) ++ rest) = some (codes (toDigits 10 value), rest) := by
  obtain ⟨first, more, split, zero⟩ := toDigits_cons value
  have all : ∀ code ∈ codes (toDigits 10 value), digit code = true := by
    intro code mem
    obtain ⟨character, there, rfl⟩ := mem_map.mp mem
    exact digit_toDigits there
  by_cases none_ : value = 0
  · subst none_
    rfl
  · rw [split] at all ⊢
    obtain ⟨here, later⟩ := forall_mem_cons.mp all
    have spans := span_digits (codes more) later ends.stops
    rw [codes_cons, cons_append, readWhole]
    · rw [if_pos here, spans.1, spans.2]
    · intro same
      refine none_ (zero (toNat_inj.mp ?_))
      exact same

theorem int_text (value : ℤ) : (toString value).toList
    = (if value < 0 then ['-'] else []) ++ toDigits 10 value.natAbs := by
  cases value with
  | ofNat value =>
    exact Nat.toList_repr
  | negSucc value =>
    rw [if_pos (Int.negSucc_lt_zero value)]
    show ("-" ++ Nat.repr (value + 1)).toList = _
    rw [String.toList_append, Nat.toList_repr]
    rfl

theorem readSign_digits (rest : Text) :
    readSign (codes (toDigits 10 value) ++ rest) = ([], codes (toDigits 10 value) ++ rest) := by
  obtain ⟨first, more, split, -⟩ := toDigits_cons value
  have isDigit : digit first.toNat = true := digit_toDigits (split ▸ mem_cons_self)
  rw [split, codes_cons, cons_append, readSign]
  intro _ same
  rw [(cons.inj same).1] at isDigit
  cases isDigit

/-- Nothing that may continue a whole part. -/
def EndsFraction (rest : Text) : Prop := ∀ code ∈ rest.head?, digit code = false ∧ code ≠ 46

theorem Ends.fraction (ends : Ends rest) : EndsFraction rest :=
  fun code mem => ⟨(ends code mem).1, (ends code mem).2.1⟩

theorem readFraction_ends (ends : EndsFraction rest) : readFraction rest = ([], rest) := by
  cases rest with
  | nil => rfl
  | cons code rest =>
    rw [readFraction]
    exact fun _ _ same => (ends code rfl).2 (cons.inj same).1

theorem readExponent_ends (ends : Ends rest) : readExponent rest = ([], rest) := by
  cases rest with
  | nil => rfl
  | cons code rest =>
    obtain ⟨-, -, small, large⟩ := ends code rfl
    rw [readExponent, if_neg (not_or.mpr ⟨small, large⟩)]

theorem readLiteral_digits (ends : Ends rest) (negative : Bool) :
    readLiteral (codes (if negative then ['-'] else []) ++ (codes (toDigits 10 value) ++ rest))
      = some ⟨codes (if negative then ['-'] else []), codes (toDigits 10 value), [], [], rest⟩ := by
  have sign : readSign (codes (if negative then ['-'] else []) ++ (codes (toDigits 10 value) ++ rest))
      = (codes (if negative then ['-'] else []), codes (toDigits 10 value) ++ rest) := by
    cases negative with
    | false => exact readSign_digits value rest
    | true => rfl
  unfold readLiteral
  rw [sign]
  dsimp only
  rw [readWhole_digits value ends]
  dsimp only [bind_eq_bind, bind_some]
  rw [readFraction_ends ends.fraction, readExponent_ends ends]
  rfl

variable {numbers : Numbers}

theorem readNumber_int {value : ℤ} (fits : numbers.Fits value) (ends : Ends rest) :
    readNumber numbers (codes (toString value).toList ++ rest) = some (.int value, rest) := by
  have split : codes (toString value).toList ++ rest
      = codes (if decide (value < 0) then ['-'] else []) ++ (codes (toDigits 10 value.natAbs) ++ rest) := by
    rw [int_text, codes_append, append_assoc]
    simp
  unfold readNumber
  rw [split, readLiteral_digits value.natAbs ends]
  dsimp only [bind_eq_bind, bind_some]
  have small : ¬ (numbers.digits ≠ 0 ∧ numbers.digits < (codes (toDigits 10 value.natAbs)).length) := by
    rw [codes_length]
    unfold Numbers.Fits at fits
    omega
  rw [if_pos ⟨rfl, rfl⟩, if_neg small]
  have whole : wholeValue (codes (toDigits 10 value.natAbs)) = value.natAbs := by
    unfold wholeValue
    rw [ofNat_codes, Nat.ofDigitChars_ten_toDigits]
  rw [whole]
  by_cases negative : value < 0
  · rw [decide_eq_true negative]
    show some (Json.int (-(value.natAbs : ℤ)), rest) = _
    rw [show -(value.natAbs : ℤ) = value by omega]
  · rw [decide_eq_false negative]
    show some (Json.int (value.natAbs : ℤ), rest) = _
    rw [show (value.natAbs : ℤ) = value by omega]

theorem floatLiteral_bit {bit : Char} (is_bit : bit = '0' ∨ bit = '1') : FloatLiteral [bit, '.', '0'] := by
  intro rest ends
  have spans : rest.takeWhile digit = [] ∧ rest.dropWhile digit = rest :=
    span_digits [] (nofun) ends.stops
  refine ⟨⟨[], [bit.toNat], [46, 48], [], rest⟩, ?_, rfl, rfl, Or.inl (cons_ne_nil _ _)⟩
  have read : readLiteral (codes [bit, '.', '0'] ++ rest) = some ⟨[], [bit.toNat], 46 :: 48 :: rest.takeWhile digit,
      (readExponent (rest.dropWhile digit)).1, (readExponent (rest.dropWhile digit)).2⟩ := by
    rcases is_bit with rfl | rfl <;> rfl
  rw [read, spans.1, spans.2, readExponent_ends ends]

theorem floatLiteral_one : FloatLiteral "1.0".toList :=
  floatLiteral_bit (Or.inr rfl)

theorem readNumber_float {literal : List Char} (float : FloatLiteral literal) (ends : Ends rest) :
    readNumber numbers (codes literal ++ rest) = some (numbers.float literal, rest) := by
  obtain ⟨read, found, after, same, parts⟩ := float rest ends
  unfold readNumber
  rw [found]
  dsimp only [bind_eq_bind, bind_some]
  rw [if_neg (fun none_ => parts.elim (fun some_ => some_ none_.1) (fun some_ => some_ none_.2)), same, ofNat_codes,
    after]
  rfl

/-! ### What is read of a number -/

theorem readSign_parts (input : Text) : (readSign input).1 ++ (readSign input).2 = input ∧
    ((readSign input).1 = [45] ∨ (readSign input).1 = []) := by
  unfold readSign
  split
  · exact ⟨rfl, Or.inl rfl⟩
  · exact ⟨rfl, Or.inr rfl⟩

theorem all_takeWhile (input : Text) : ∀ code ∈ input.takeWhile digit, digit code = true :=
  fun _ mem => mem_takeWhile_imp mem

variable {input : Text}

theorem readWhole_parts {read : Text × Text} (found : readWhole input = some read) :
    read.1 ++ read.2 = input ∧ (∀ code ∈ read.1, digit code = true) ∧
      (∀ rest, Stops rest → readWhole (read.1 ++ rest) = some (read.1, rest)) ∧
        ∃ first more, read.1 = first :: more := by
  unfold readWhole at found
  split at found
  · cases found
    exact ⟨rfl, forall_mem_singleton.mpr rfl, fun _ _ => rfl, 48, [], rfl⟩
  · rename_i code rest zero
    split_ifs at found with isDigit
    cases found
    refine ⟨congrArg (code :: ·) takeWhile_append_dropWhile,
      forall_mem_cons.mpr ⟨isDigit, all_takeWhile rest⟩, fun after stops => ?_, code, _, rfl⟩
    have spans := span_digits _ (all_takeWhile rest) stops
    rw [cons_append, readWhole]
    · rw [if_pos isDigit, spans.1, spans.2]
    · exact zero
  · cases found

def mark (code : ℕ) : Bool := code == 43 || code == 45 || code == 46 || code == 69 || code == 101

/-- What an optional part of a number takes: it is read again before anything that ends it, and starts with no
digit. -/
structure Part (reader : Text → Text × Text) (ends : Text → Prop) (input : Text) (read : Text × Text) : Prop where
  joined : read.1 ++ read.2 = input
  plain : ∀ code ∈ read.1, digit code = true ∨ mark code = true
  again : ∀ rest, ends rest → reader (read.1 ++ rest) = (read.1, rest)
  starts : ∀ code ∈ read.1.head?, digit code = false

theorem part_nothing {reader : Text → Text × Text} {ends : Text → Prop} (input : Text)
    (nothing : ∀ rest, ends rest → reader rest = ([], rest)) : Part reader ends input ([], input) where
  joined := rfl
  plain _ member := by cases member
  again := nothing
  starts _ member := by cases member

theorem readFraction_part (input : Text) : Part readFraction EndsFraction input (readFraction input) := by
  fun_cases readFraction input with
  | case1 code rest isDigit =>
    refine ⟨congrArg (46 :: code :: ·) takeWhile_append_dropWhile, ?_, fun after ends => ?_, ?_⟩
    · refine forall_mem_cons.mpr ⟨Or.inr rfl, forall_mem_cons.mpr ⟨Or.inl isDigit, ?_⟩⟩
      exact fun other mem => Or.inl (all_takeWhile rest other mem)
    · have spans := span_digits _ (all_takeWhile rest) fun code mem => (ends code mem).1
      show readFraction (46 :: code :: (rest.takeWhile digit ++ after)) = _
      rw [readFraction, if_pos isDigit, spans.1, spans.2]
    · intro _ mem
      cases mem
      rfl
  | case2 code rest isDigit | case3 => exact part_nothing _ fun _ ends => readFraction_ends ends

theorem readExponentSign_part (input : Text) : (readExponentSign input).1 ++ (readExponentSign input).2 = input ∧
    (∀ code ∈ (readExponentSign input).1, mark code = true) ∧ ∀ first more, digit first = true →
        readExponentSign ((readExponentSign input).1 ++ first :: more) = ((readExponentSign input).1, first :: more) := by
  have unsigned : ∀ first more, digit first = true → readExponentSign (first :: more) = ([], first :: more) := by
    intro first more isDigit
    rw [readExponentSign, if_neg]
    rintro (rfl | rfl) <;> cases isDigit
  fun_cases readExponentSign input with
  | case1 code rest signed =>
    refine ⟨rfl, forall_mem_singleton.mpr ?_, fun first more _ => ?_⟩
    · rcases signed with rfl | rfl <;> rfl
    · show readExponentSign (code :: first :: more) = _
      rw [readExponentSign, if_pos signed]
  | case2 | case3 => exact ⟨rfl, nofun, unsigned⟩

theorem readExponent_part (input : Text) : Part readExponent Ends input (readExponent input) := by
  fun_cases readExponent input with
  | case1 | case3 | case4 | case5 => exact part_nothing _ fun _ ends => readExponent_ends ends
  | case2 code rest letter first more split isDigit =>
    obtain ⟨joined, marks, again⟩ := readExponentSign_part rest
    rw [split] at joined
    refine ⟨?_, ?_, fun after ends => ?_, ?_⟩
    · rw [cons_append, append_assoc, cons_append, takeWhile_append_dropWhile, joined]
    · refine forall_mem_cons.mpr ⟨Or.inr (by rcases letter with rfl | rfl <;> rfl), fun other mem => ?_⟩
      rcases mem_append.mp mem with mem | mem
      · exact Or.inr (marks other mem)
      · rcases mem_cons.mp mem with rfl | mem
        · exact Or.inl isDigit
        · exact Or.inl (all_takeWhile more other mem)
    · have spans := span_digits _ (all_takeWhile more) ends.stops
      have sign := again first (more.takeWhile digit ++ after) isDigit
      show readExponent (code :: ((readExponentSign rest).1 ++ first :: more.takeWhile digit ++ after)) = _
      rw [readExponent, if_pos letter, append_assoc, cons_append, sign]
      dsimp only
      rw [if_pos isDigit, spans.1, spans.2]
    · intro _ mem
      cases mem
      rcases letter with rfl | rfl <;> rfl

theorem readExponent_first (input : Text) : ∀ code ∈ (readExponent input).1.head?, code = 101 ∨ code = 69 := by
  fun_cases readExponent input with
  | case2 code rest letter =>
    intro _ mem
    cases mem
    exact letter
  | case1 | case3 | case4 | case5 => exact nofun

theorem head_append {holds : ℕ → Prop} {first second : Text} (one : ∀ code ∈ first.head?, holds code)
    (two : ∀ code ∈ second.head?, holds code) : ∀ code ∈ (first ++ second).head?, holds code := by
  cases first with
  | nil => exact two
  | cons code rest => exact one

/-- **What is read of a number** is read again before anything that ends it. -/
theorem readLiteral_taken {read : Literal} (found : readLiteral input = some read) :
    read.taken ++ read.rest = input ∧ (∀ code ∈ read.taken, digit code = true ∨ mark code = true) ∧
      ((∀ code ∈ read.whole, digit code = true) ∧ read.whole ≠ []) ∧
        ∀ rest, Ends rest → readLiteral (read.taken ++ rest) = some { read with rest } := by
  obtain ⟨whole, ran, same⟩ := Option.bind_eq_some_iff.mp found
  obtain ⟨signed, signs⟩ := readSign_parts input
  obtain ⟨joined, digits, again, first, more, starts⟩ := readWhole_parts ran
  have fraction := readFraction_part whole.2
  have exponent := readExponent_part (readFraction whole.2).2
  cases same
  refine ⟨?_, ?_, ⟨digits, starts ▸ cons_ne_nil _ _⟩, fun rest ends => ?_⟩
  · show (readSign input).1 ++ whole.1 ++ (readFraction whole.2).1 ++ (readExponent (readFraction whole.2).2).1
      ++ (readExponent (readFraction whole.2).2).2 = input
    rw [append_assoc, exponent.joined, append_assoc, fraction.joined, append_assoc, joined, signed]
  · intro code mem
    rcases mem_append.mp mem with mem | mem
    · rcases mem_append.mp mem with mem | mem
      · rcases mem_append.mp mem with mem | mem
        · rcases signs with sign | sign
          · rw [show _ = [45] from sign] at mem
            obtain rfl := mem_singleton.mp mem
            exact Or.inr rfl
          · rw [show _ = [] from sign] at mem
            cases mem
        · exact Or.inl (digits code mem)
      · exact fraction.plain code mem
    · exact exponent.plain code mem
  · have letter : EndsFraction ((readExponent (readFraction whole.2).2).1 ++ rest) := by
      refine head_append (fun code mem => ⟨exponent.starts code mem, ?_⟩) ends.fraction
      rcases readExponent_first _ code mem with rfl | rfl <;> decide
    have stops : Stops ((readFraction whole.2).1 ++ ((readExponent (readFraction whole.2).2).1 ++ rest)) :=
      head_append fraction.starts fun code mem => (letter code mem).1
    have sign : readSign ((readSign input).1 ++ (whole.1 ++ ((readFraction whole.2).1
        ++ ((readExponent (readFraction whole.2).2).1 ++ rest))))
          = ((readSign input).1, whole.1 ++ ((readFraction whole.2).1
            ++ ((readExponent (readFraction whole.2).2).1 ++ rest))) := by
      have isDigit : digit first = true := digits first (starts ▸ mem_cons_self)
      rcases signs with sign | sign
      · rw [sign]
        rfl
      · rw [sign, starts, nil_append, cons_append, readSign]
        intro _ same
        rw [(cons.inj same).1] at isDigit
        cases isDigit
    show readLiteral ((readSign input).1 ++ whole.1 ++ (readFraction whole.2).1
      ++ (readExponent (readFraction whole.2).2).1 ++ rest) = _
    unfold readLiteral
    rw [append_assoc, append_assoc, append_assoc, sign]
    dsimp only
    rw [again _ stops]
    dsimp only [bind_eq_bind, bind_some]
    rw [fraction.again _ letter, exponent.again _ ends]
    rfl

theorem plain_range (plain : digit code = true ∨ mark code = true) : 43 ≤ code ∧ code ≤ 101 := by
  rcases plain with plain | plain
  · have digits : 48 ≤ code ∧ code ≤ 57 := of_decide_eq_true plain
    omega
  · unfold mark at plain
    simp only [Bool.or_eq_true, beq_iff_eq] at plain
    omega

theorem floatLiteral_taken {read : Literal} (found : readLiteral input = some read)
    (parts : read.fraction ≠ [] ∨ read.exponent ≠ []) : FloatLiteral (read.taken.map ofNat) := by
  obtain ⟨-, plain, -, again⟩ := readLiteral_taken found
  have same : codes (read.taken.map ofNat) = read.taken := by
    unfold codes
    rw [map_map]
    refine (map_congr_left fun code mem => ?_).trans (map_id read.taken)
    exact toNat_ofNat ((plain_range (plain code mem)).2.trans_lt (by decide))
  intro rest ends
  rw [same]
  exact ⟨_, again rest ends, rfl, rfl, parts⟩

section

variable {digits : Text} (all : ∀ code ∈ digits, digit code = true)
include all

theorem ofDigitChars_lt (start : ℕ) :
    Nat.ofDigitChars 10 (digits.map ofNat) start < (start + 1) * 10 ^ digits.length := by
  induction digits generalizing start with
  | nil => simp
  | cons code rest known =>
    obtain ⟨here, later⟩ := forall_mem_cons.mp all
    have bounds : 48 ≤ code ∧ code ≤ 57 := of_decide_eq_true here
    have zero : '0'.toNat = 48 := rfl
    rw [map_cons, Nat.ofDigitChars_cons, toNat_ofNat (by omega), length_cons, pow_succ]
    refine (known later _).trans_le ?_
    rw [zero, ← Nat.mul_assoc, Nat.mul_right_comm]
    exact Nat.mul_le_mul_right _ (by omega)

theorem wholeValue_digits (some_ : digits ≠ []) :
    (toDigits 10 (wholeValue digits)).length ≤ digits.length := by
  refine (Nat.length_toDigits_le_iff (by decide) (length_pos_iff.mpr some_)).mpr ?_
  have below := ofDigitChars_lt all 0
  rw [Nat.zero_add, Nat.one_mul] at below
  exact below

end

/-- A number that is read may be written again, or is infinite. -/
theorem readNumber_value {value : Json} (found : readNumber numbers input = some (value, rest)) :
    (∃ whole, value = .int whole ∧ numbers.Fits whole) ∨
      (∃ exact_ shortest, value = .float exact_ shortest ∧ FloatLiteral shortest ∧
        numbers.float shortest = .float exact_ shortest) ∨
      value = .nonFinite .infinity ∨ value = .nonFinite .negInfinity := by
  obtain ⟨read, ran, same⟩ := Option.bind_eq_some_iff.mp found
  by_cases whole : read.fraction = [] ∧ read.exponent = []
  · rw [if_pos whole] at same
    by_cases many : numbers.digits ≠ 0 ∧ numbers.digits < read.whole.length
    · rw [if_pos many] at same
      cases same
    · rw [if_neg many] at same
      cases same
      refine Or.inl ⟨_, rfl, ?_⟩
      obtain ⟨-, -, ⟨digits, filled⟩, -⟩ := readLiteral_taken ran
      have short := wholeValue_digits digits filled
      have value : (if read.sign = [] then (wholeValue read.whole : ℤ) else -(wholeValue read.whole : ℤ)).natAbs
          = wholeValue read.whole := by
        split_ifs <;> omega
      unfold Numbers.Fits
      rw [value]
      omega
  · rw [if_neg whole] at same
    have same := Option.some.inj same
    have value_ : value = numbers.float (read.taken.map ofNat) := (congrArg Prod.fst same).symm
    rw [value_]
    rcases numbers.floats _ (floatLiteral_taken ran (not_and_or.mp whole)) with
      ⟨exact_, shortest, same, literal, again⟩ | same | same
    · exact Or.inr (Or.inl ⟨exact_, shortest, same, literal, again⟩)
    · exact Or.inr (Or.inr (Or.inl same))
    · exact Or.inr (Or.inr (Or.inr same))

/-- The number that a literal stands for. -/
def decimalValue (literal : List Char) : ℚ :=
  match readLiteral (codes literal) with
  | none => 0
  | some read =>
    let digits := wholeValue (read.whole ++ read.fraction.drop 1)
    let exponent := wholeValue (read.exponent.filter digit)
    let scaled : ℚ := digits / 10 ^ (read.fraction.length - 1)
    (if read.sign = [] then 1 else -1) * if 45 ∈ read.exponent then scaled / 10 ^ exponent
      else scaled * 10 ^ exponent

/-- Numbers that are read as they stand, without rounding. -/
def Numbers.decimal (digits : ℕ) (constants : Bool) : Numbers where
  float literal := .float (decimalValue literal) literal
  digits
  constants
  floats literal float := Or.inl ⟨_, literal, rfl, float, rfl⟩

end TinyDSV41.Lib
