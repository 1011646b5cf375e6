/-
**JSON texts and their lengths.**

Values as they are read and written by a JSON library whose numbers include the constants that are not
JSON, and whose texts are lists of code points, lone surrogates included. `dumps` writes a value in ASCII;
a style fixes the separators and whether the keys of an object are sorted.

* `dumps_length_le` — a style with shorter separators gives a text that is no longer, sorted or not.
* `dumps_object_length` — the length of an object is that of its entries, in any order.
* `Json.strict` — the text of a value has no such constant and no key twice in one object.
-/

import Mathlib.Algebra.Order.BigOperators.Group.List
import Mathlib.Data.List.Sort
import Mathlib.Data.List.Lex
import Mathlib.Tactic.Ring

namespace TinyDSV41.Lib

open List

/-! ### Values -/

abbrev Text := List ℕ

instance lawfulText : LawfulBEq Text := inferInstance

def text (literal : String) : Text := literal.toList.map Char.toNat

/-- The constants that are written for numbers that are not finite. -/
inductive NonFinite
  | nan
  | infinity
  | negInfinity
deriving DecidableEq

def NonFinite.name : NonFinite → String
  | .nan => "NaN"
  | .infinity => "Infinity"
  | .negInfinity => "-Infinity"

/-- A value; a finite float comes with the text that it is written as. -/
inductive Json
  | null
  | bool (value : Bool)
  | int (value : ℤ)
  | float (value : ℚ) (shortest : List Char)
  | nonFinite (constant : NonFinite)
  | str (value : Text)
  | list (items : List Json)
  | object (entries : List (Text × Json))

namespace Json

def get (value : Json) (key : String) : Option Json :=
  match value with
  | .object entries => (entries.find? fun entry => entry.1 = text key).map Prod.snd
  | _ => none

def keys : Json → List Text
  | .object entries => entries.map Prod.fst
  | _ => []

def isObject : Json → Bool
  | .object _ => true
  | _ => false

def isText : Json → Bool
  | .str _ => true
  | _ => false

end Json

theorem text_injective : Function.Injective text := by
  intro first second same
  refine String.toList_injective (map_injective_iff.mpr (fun one two equal => ?_) same)
  exact Char.toNat_inj.mp equal

@[simp] theorem text_inj {first second : String} : text first = text second ↔ first = second :=
  text_injective.eq_iff

def literal (value : String) : Json := .str (text value)

def object (entries : List (String × Json)) : Json :=
  .object (entries.map fun entry => (text entry.1, entry.2))

@[simp] theorem object_isObject : (object entries).isObject = true :=
  rfl

@[simp] theorem object_keys :
    (object entries).keys = (entries.map Prod.fst).map text := by
  simp [object, Json.keys]

@[simp] theorem object_get_nil (key : String) : (object []).get key = none := rfl

@[simp] theorem object_get_cons (name key : String) (value : Json) (rest : List (String × Json)) :
    (object ((name, value) :: rest)).get key
      = if name = key then some value else (object rest).get key := by
  by_cases same : name = key
  all_goals simp [object, Json.get, same]

@[simp] theorem text_mem_map {name : String} {names : List String} :
    text name ∈ names.map text ↔ name ∈ names :=
  mem_map_of_injective text_injective

/-! ### Texts of values -/

/-- The four hexadecimal digits behind `\u`. -/
def escapeUnit (unit : ℕ) : List Char :=
  ['\\', 'u', Nat.digitChar (unit / 4096 % 16), Nat.digitChar (unit / 256 % 16),
    Nat.digitChar (unit / 16 % 16), Nat.digitChar (unit % 16)]

def escape (code : ℕ) : List Char :=
  if code = 34 then ['\\', '"'] else if code = 92 then ['\\', '\\']
  else if code = 8 then ['\\', 'b'] else if code = 9 then ['\\', 't']
  else if code = 10 then ['\\', 'n'] else if code = 12 then ['\\', 'f']
  else if code = 13 then ['\\', 'r']
  else if 32 ≤ code ∧ code ≤ 126 then [Char.ofNat code]
  else if code < 65536 then escapeUnit code
  -- A pair of surrogates.
  else escapeUnit (55296 + (code - 65536) / 1024) ++ escapeUnit (56320 + (code - 65536) % 1024)

def quote (value : Text) : List Char := '"' :: (value.flatMap escape ++ ['"'])

theorem escape_length_le (code : ℕ) : (escape code).length ≤ 12 := by
  unfold escape
  split_ifs
  all_goals exact Nat.le_of_ble_eq_true rfl

theorem quote_length (value : Text) : (quote value).length = (value.flatMap escape).length + 2 := by
  simp [quote]

theorem quote_length_le (value : Text) : (quote value).length ≤ 12 * value.length + 2 := by
  rw [quote_length]
  induction value with
  | nil => simp
  | cons code rest known =>
    have one := escape_length_le code
    rw [flatMap_cons, length_append, length_cons]
    omega

theorem escape_plain {code : ℕ} (printable : 32 ≤ code ∧ code ≤ 126) (quotes : code ≠ 34)
    (backslash : code ≠ 92) : escape code = [Char.ofNat code] := by
  unfold escape
  rw [if_neg quotes, if_neg backslash, if_neg (by omega), if_neg (by omega), if_neg (by omega),
    if_neg (by omega), if_neg (by omega), if_pos printable]

theorem quote_plain_length {value : Text}
    (plain : ∀ code ∈ value, (32 ≤ code ∧ code ≤ 126) ∧ code ≠ 34 ∧ code ≠ 92) :
    (quote value).length = value.length + 2 := by
  rw [quote_length]
  induction value with
  | nil => rfl
  | cons code rest known =>
    obtain ⟨printable, quotes, backslash⟩ := plain code mem_cons_self
    have others := known fun other mem => plain other (mem_cons_of_mem _ mem)
    rw [flatMap_cons, length_append, escape_plain printable quotes backslash]
    simp only [length_cons, length_nil]
    omega

/-- The separators between items and behind keys, and whether keys are sorted. -/
structure Style where
  item : List Char
  key : List Char
  sorted : Bool

def Style.compact : Style := ⟨[','], [':'], true⟩

def Style.spaced : Style := ⟨[',', ' '], [':', ' '], false⟩

variable (style : Style) (pieces : List (Text × List Char))

def Style.arrange (style : Style) (pieces : List (Text × List Char)) : List (Text × List Char) :=
  if style.sorted then pieces.insertionSort fun first second => first.1 ≤ second.1 else pieces

mutual
def dumps (style : Style) : Json → List Char
  | .null => "null".toList
  | .bool value => if value then "true".toList else "false".toList
  | .int value => (toString value).toList
  | .float _ shortest => shortest
  | .nonFinite constant => constant.name.toList
  | .str value => quote value
  | .list items => '[' :: (style.item.intercalate (dumpsItems style items) ++ [']'])
  | .object entries =>
    "\x7b".toList ++ style.item.intercalate
      ((style.arrange (dumpsEntries style entries)).map Prod.snd) ++ "\x7d".toList
def dumpsItems (style : Style) : List Json → List (List Char)
  | [] => []
  | item :: rest => dumps style item :: dumpsItems style rest
def dumpsEntries (style : Style) : List (Text × Json) → List (Text × List Char)
  | [] => []
  | (key, value) :: rest => (key, quote key ++ style.key ++ dumps style value) ::
      dumpsEntries style rest
end

mutual
def Json.strict : Json → Bool
  | .nonFinite _ => false
  | .list items => strictItems items
  | .object entries => decide ((entries.map fun entry => quote entry.1).Nodup) && strictEntries entries
  | _ => true
def strictItems : List Json → Bool
  | [] => true
  | item :: rest => item.strict && strictItems rest
def strictEntries : List (Text × Json) → Bool
  | [] => true
  | (_, value) :: rest => value.strict && strictEntries rest
end

/-! ### Lengths -/

def total (pieces : List (List Char)) : ℕ := (pieces.map length).sum

@[simp] theorem total_nil : total [] = 0 := rfl

@[simp] theorem total_cons (piece : List Char) (rest : List (List Char)) :
    total (piece :: rest) = piece.length + total rest := rfl

theorem intercalate_length (separator : List Char) (pieces : List (List Char)) :
    (separator.intercalate pieces).length = total pieces + separator.length * (pieces.length - 1) := by
  induction pieces with
  | nil => simp
  | cons piece rest known =>
    cases rest with
    | nil => simp
    | cons next rest =>
      rw [intercalate_cons_cons, length_append, length_append, known, total_cons]
      simp only [length_cons, Nat.add_sub_cancel, total_cons]
      ring

theorem dumpsItems_length :
    (dumpsItems style items).length = items.length := by
  induction items with
  | nil => rfl
  | cons item rest known => simp [dumpsItems, known]

theorem dumpsEntries_eq_map : dumpsEntries style entries
      = entries.map fun entry => (entry.1, quote entry.1 ++ style.key ++ dumps style entry.2) := by
  induction entries with
  | nil => rfl
  | cons entry rest known => rw [dumpsEntries, known, map_cons]

theorem dumpsItems_eq_map :
    dumpsItems style items = items.map (dumps style) := by
  induction items with
  | nil => rfl
  | cons item rest known => rw [dumpsItems, known, map_cons]

theorem arrange_perm :
    (style.arrange pieces).Perm pieces := by
  unfold Style.arrange
  split_ifs
  · exact perm_insertionSort _ pieces
  · exact List.Perm.refl pieces

def entryLength (style : Style) (entry : Text × Json) : ℕ :=
  (quote entry.1).length + style.key.length + (dumps style entry.2).length

theorem dumps_object_length :
    (dumps style (.object entries)).length
      = (entries.map (entryLength style)).sum + style.item.length * (entries.length - 1) + 2 := by
  have perm := arrange_perm style (dumpsEntries style entries)
  have lengths : total ((style.arrange (dumpsEntries style entries)).map Prod.snd)
      = (entries.map (entryLength style)).sum := by
    unfold total
    rw [(((perm.map Prod.snd).map length).sum_eq), dumpsEntries_eq_map, map_map, map_map]
    congr 1
    refine map_congr_left fun entry _ => ?_
    simp [entryLength]
    ring
  have count : ((style.arrange (dumpsEntries style entries)).map Prod.snd).length = entries.length := by
    rw [length_map, perm.length_eq, dumpsEntries_eq_map, length_map]
  rw [dumps, length_append, length_append, intercalate_length, lengths, count]
  simp
  ring

theorem dumps_list_length : (dumps style (.list items)).length
      = (items.map fun item => (dumps style item).length).sum
        + style.item.length * (items.length - 1) + 2 := by
  rw [dumps, length_cons, length_append, intercalate_length, dumpsItems_length,
    dumpsItems_eq_map]
  simp [total, Function.comp_def]

section Styles

variable {short long : Style}

mutual
theorem dumps_length_le (item : short.item.length ≤ long.item.length)
    (key : short.key.length ≤ long.key.length) :
    ∀ value : Json, (dumps short value).length ≤ (dumps long value).length
  | .null | .bool _ | .int _ | .float _ _ | .nonFinite _ | .str _ => by simp [dumps]
  | .list items => by
      rw [dumps_list_length, dumps_list_length]
      have items_le := dumpsItems_length_le item key items
      have separators := Nat.mul_le_mul_right (items.length - 1) item
      omega
  | .object entries => by
      rw [dumps_object_length, dumps_object_length]
      have entries_le := dumpsEntries_length_le item key entries
      have separators := Nat.mul_le_mul_right (entries.length - 1) item
      omega
theorem dumpsItems_length_le (item : short.item.length ≤ long.item.length)
    (key : short.key.length ≤ long.key.length) :
    ∀ items : List Json, (items.map fun item => (dumps short item).length).sum
      ≤ (items.map fun item => (dumps long item).length).sum
  | [] => le_rfl
  | first :: rest => by
      have one := dumps_length_le item key first
      have others := dumpsItems_length_le item key rest
      simp only [map_cons, sum_cons]
      omega
theorem dumpsEntries_length_le (item : short.item.length ≤ long.item.length)
    (key : short.key.length ≤ long.key.length) :
    ∀ entries : List (Text × Json), (entries.map (entryLength short)).sum
      ≤ (entries.map (entryLength long)).sum
  | [] => le_rfl
  | (name, value) :: rest => by
      have one := dumps_length_le item key value
      have others := dumpsEntries_length_le item key rest
      simp only [map_cons, sum_cons, entryLength]
      omega
end

end Styles

theorem compact_length_le (value : Json) : (dumps .compact value).length ≤ (dumps .spaced value).length :=
  dumps_length_le (by decide) (by decide) value

theorem dumps_entry_length_le {entries : List (Text × Json)} {entry : Text × Json}
    (mem : entry ∈ entries) :
    (dumps style entry.2).length ≤ (dumps style (.object entries)).length := by
  rw [dumps_object_length]
  have one : entryLength style entry ≤ (entries.map (entryLength style)).sum :=
    le_sum_of_mem (mem_map_of_mem mem)
  have value_le : (dumps style entry.2).length ≤ entryLength style entry := by
    unfold entryLength
    omega
  omega

end TinyDSV41.Lib
