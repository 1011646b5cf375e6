/-
**Reading JSON texts.**

`loads` reads a text, a list of code points, as a JSON library does that also takes the constants for numbers
that are not finite.

* `parseValue_dumps` — the text of a value is read as that value, with its keys in the order of the text.
* `loads_dumps` — the same of whole texts.
-/

import TinyDSV41.Lib.JsonLiteral

set_option linter.unusedSectionVars false

namespace TinyDSV41.Lib

open List Style Json

/-! ### Values -/

def blank (code : ℕ) : Bool := decide (code = 32 ∨ code = 9 ∨ code = 10 ∨ code = 13)

def skip (input : Text) : Text := input.dropWhile blank

variable (constants : Bool)

def words (constants : Bool) : List (Text × Json) :=
  [(text "null", .null), (text "true", .bool true), (text "false", .bool false)] ++
    if constants then [(text "NaN", .nonFinite .nan), (text "Infinity", .nonFinite .infinity),
      (text "-Infinity", .nonFinite .negInfinity)]
    else []

def readWord (constants : Bool) (input : Text) : Option (Json × Text) :=
  (words constants).findSome? fun word => if word.1.isPrefixOf input then some (word.2, input.drop word.1.length) else none

mutual
/-- A value; the fuel bounds how deep and how long lists and objects are. -/
def parseValue (numbers : Numbers) : ℕ → Text → Option (Json × Text)
  | 0, _ => none
  | fuel + 1, input =>
    match input with
    | 34 :: rest => (readString rest).map fun read => (.str read.1, read.2)
    | 91 :: rest =>
      match skip rest with
      | 93 :: rest => some (.list [], rest)
      | rest => (parseItems numbers fuel rest).map fun read => (.list read.1, read.2)
    | 123 :: rest =>
      match skip rest with
      | 125 :: rest => some (.object [], rest)
      | rest => (parseEntries numbers fuel rest).map fun read => (.object read.1, read.2)
    | input => (readWord numbers.constants input).orElse fun _ => readNumber numbers input
def parseItems (numbers : Numbers) : ℕ → Text → Option (List Json × Text)
  | 0, _ => none
  | fuel + 1, input => do
      let (item, rest) ← parseValue numbers fuel input
      match skip rest with
      | 93 :: rest => return ([item], rest)
      | 44 :: rest =>
        let (items, rest) ← parseItems numbers fuel (skip rest)
        return (item :: items, rest)
      | _ => none
def parseEntries (numbers : Numbers) : ℕ → Text → Option (List (Text × Json) × Text)
  | 0, _ => none
  | fuel + 1, input =>
    match input with
    | 34 :: rest => do
        let (key, rest) ← readString rest
        match skip rest with
        | 58 :: rest =>
          let (value, rest) ← parseValue numbers fuel (skip rest)
          match skip rest with
          | 125 :: rest => return ([(key, value)], rest)
          | 44 :: rest =>
            let (entries, rest) ← parseEntries numbers fuel (skip rest)
            return ((key, value) :: entries, rest)
          | _ => none
        | _ => none
    | _ => none
end

/-- `json.loads`, with the entries of objects as they are written. -/
def loads (numbers : Numbers) (input : Text) : Option Json :=
  if input.head? = some 65279 then none
  else
    match parseValue numbers (input.length + 1) (skip input) with
    | none => none
    | some (value, rest) => if skip rest = [] then some value else none

/-! ### Values and their texts -/

mutual
/-- Values that are read again from their texts. -/
def Json.Readable (numbers : Numbers) : Json → Prop
  | .null => True
  | .bool _ => True
  | .int value => numbers.Fits value
  | .float value shortest => FloatLiteral shortest ∧ numbers.float shortest = .float value shortest
  | .nonFinite _ => numbers.constants = true
  | .str value => Plain value
  | .list items => ReadableItems numbers items
  | .object entries => ReadableEntries numbers entries
def ReadableItems (numbers : Numbers) : List Json → Prop
  | [] => True
  | item :: rest => item.Readable numbers ∧ ReadableItems numbers rest
def ReadableEntries (numbers : Numbers) : List (Text × Json) → Prop
  | [] => True
  | (key, value) :: rest => Plain key ∧ value.Readable numbers ∧ ReadableEntries numbers rest
end

/-- The entries of an object in the order of the style. -/
def Style.order (style : Style) (entries : List (Text × Json)) : List (Text × Json) :=
  if style.sorted then entries.insertionSort fun first second => first.1 ≤ second.1 else entries

mutual
/-- The value with the keys of all objects in the order of the style. -/
def Json.arranged (style : Style) : Json → Json
  | .list items => .list (arrangedItems style items)
  | .object entries => .object (style.order (arrangedEntries style entries))
  | value => value
def arrangedItems (style : Style) : List Json → List Json
  | [] => []
  | item :: rest => item.arranged style :: arrangedItems style rest
def arrangedEntries (style : Style) : List (Text × Json) → List (Text × Json)
  | [] => []
  | (key, value) :: rest => (key, value.arranged style) :: arrangedEntries style rest
end

def Style.Separates (style : Style) : Prop :=
  (∃ blanks, codes style.item = 44 :: blanks ∧ ∀ code ∈ blanks, blank code = true) ∧
    ∃ blanks, codes style.key = 58 :: blanks ∧ ∀ code ∈ blanks, blank code = true

theorem compact_separates : compact.Separates := ⟨⟨[], rfl, by decide⟩, ⟨[], rfl, by decide⟩⟩

theorem spaced_separates : spaced.Separates := ⟨⟨[32], rfl, by decide⟩, ⟨[32], rfl, by decide⟩⟩

section Parts

variable {holds : Json → Prop} (null : holds .null) (bool : ∀ value, holds (.bool value))
  (int : ∀ value, holds (.int value)) (float : ∀ value shortest, holds (.float value shortest))
  (nonFinite : ∀ constant, holds (.nonFinite constant)) (str : ∀ value, holds (.str value))
  (list : ∀ items, (∀ item ∈ items, holds item) → holds (.list items))
  (object : ∀ entries : List (Text × Json), (∀ entry ∈ entries, holds entry.2) → holds (.object entries))

include null bool int float nonFinite str list object

mutual
theorem Json.byParts : ∀ value, holds value
  | .null => null
  | .bool value => bool value
  | .int value => int value
  | .float value shortest => float value shortest
  | .nonFinite constant => nonFinite constant
  | .str value => str value
  | .list items => list items (byItems items)
  | .object entries => object entries (byEntries entries)
theorem byItems : ∀ items : List Json, ∀ item ∈ items, holds item
  | [] => nofun
  | item :: rest => forall_mem_cons.mpr ⟨Json.byParts item, byItems rest⟩
theorem byEntries : ∀ entries : List (Text × Json), ∀ entry ∈ entries, holds entry.2
  | [] => nofun
  | (_, value) :: rest => forall_mem_cons.mpr ⟨Json.byParts value, byEntries rest⟩
end

end Parts

theorem arrangedItems_map (style : Style) (items : List Json) :
    arrangedItems style items = items.map (arranged style) := by
  induction items with
  | nil => rfl
  | cons item rest known => rw [arrangedItems, known, map_cons]

theorem arrangedEntries_map (style : Style) (entries : List (Text × Json)) :
    arrangedEntries style entries = entries.map fun entry => (entry.1, entry.2.arranged style) := by
  induction entries with
  | nil => rfl
  | cons entry rest known => rw [arrangedEntries, known, map_cons]

variable {numbers : Numbers}

theorem readableItems_iff {items : List Json} :
    ReadableItems numbers items ↔ ∀ item ∈ items, item.Readable numbers := by
  induction items with
  | nil => exact ⟨nofun, fun _ => trivial⟩
  | cons item rest known => rw [ReadableItems, known, forall_mem_cons]

theorem readableEntries_iff :
    ReadableEntries numbers entries ↔ ∀ entry ∈ entries, Plain entry.1 ∧ entry.2.Readable numbers := by
  induction entries with
  | nil => exact ⟨nofun, fun _ => trivial⟩
  | cons entry rest known => rw [ReadableEntries, known, forall_mem_cons, and_assoc]

theorem sort_map {Value Other : Type} (change : Text × Value → Text × Other) (keeps : ∀ entry, (change entry).1 = entry.1)
    (entries : List (Text × Value)) :
    (entries.map change).insertionSort (fun first second => first.1 ≤ second.1)
      = (entries.insertionSort fun first second => first.1 ≤ second.1).map change :=
  (map_insertionSort (r := fun first second : Text × Value => first.1 ≤ second.1)
    (s := fun first second : Text × Other => first.1 ≤ second.1) change entries
    fun first _ second _ => by rw [keeps, keeps]).symm

theorem order_map (style : Style) (entries : List (Text × Json)) (change : Json → Json) :
    style.order (entries.map fun entry => (entry.1, change entry.2))
      = (style.order entries).map fun entry => (entry.1, change entry.2) := by
  unfold order
  split_ifs
  · exact sort_map (fun entry => (entry.1, change entry.2)) (fun _ => rfl) entries
  · rfl

def entryText (style : Style) (entry : Text × Json) : List Char :=
  quote entry.1 ++ style.key ++ dumps style entry.2

theorem dumps_object (style : Style) (entries : List (Text × Json)) : dumps style (.object entries)
      = '\x7b' :: (style.item.intercalate ((style.order entries).map (entryText style)) ++ ['\x7d']) := by
  have pieces : (style.arrange (dumpsEntries style entries)).map Prod.snd
      = (style.order entries).map (entryText style) := by
    rw [dumpsEntries_eq_map]
    unfold arrange order
    split_ifs
    · rw [sort_map (fun entry => (entry.1, quote entry.1 ++ style.key ++ dumps style entry.2)) fun _ => rfl,
        map_map]
      rfl
    · rw [map_map]
      rfl
  rw [dumps, pieces]
  rfl

theorem dumps_list (style : Style) (items : List Json) :
    dumps style (.list items) = '[' :: (style.item.intercalate (items.map (dumps style)) ++ [']']) := by
  rw [dumps, dumpsItems_eq_map]

variable {style : Style}

theorem mem_order {entry : Text × Json} :
    entry ∈ style.order entries ↔ entry ∈ entries := by
  unfold order
  split_ifs
  · exact (perm_insertionSort _ entries).mem_iff
  · exact Iff.rfl

variable {input : Text}

theorem readLiteral_head {read : Literal} (found : readLiteral input = some read) :
    ∃ first more, digit first = true ∧ (input = first :: more ∨ input = 45 :: first :: more) := by
  have whole : ∀ {input : Text} {read : Text × Text}, readWhole input = some read →
      ∃ first more, digit first = true ∧ input = first :: more := by
    intro input read found
    unfold readWhole at found
    split at found
    · exact ⟨48, _, rfl, rfl⟩
    · split_ifs at found with isDigit
      exact ⟨_, _, isDigit, rfl⟩
    · cases found
  obtain ⟨read, ran, -⟩ := Option.bind_eq_some_iff.mp found
  unfold readSign at ran
  split at ran
  all_goals obtain ⟨first, more, isDigit, same⟩ := whole ran
  · exact ⟨first, more, isDigit, Or.inr (congrArg (45 :: ·) same)⟩
  · exact ⟨first, more, isDigit, Or.inl same⟩

def wordly : Text → Bool
  | 45 :: second :: _ => !digit second
  | first :: _ => !digit first && first != 45
  | [] => false

variable {first : ℕ} {more : Text}

theorem readWord_number (isDigit : digit first = true)
    (starts : input = first :: more ∨ input = 45 :: first :: more) : readWord constants input = none := by
  have all : ∀ constants, ∀ word ∈ words constants, wordly word.1 = true := by decide
  refine findSome?_eq_none_iff.mpr fun word mem => if_neg fun starts_ => ?_
  have wordly_ := all constants word mem
  obtain ⟨after, rfl⟩ := isPrefixOf_iff_prefix.mp starts_
  generalize word.1 = name at wordly_ starts
  unfold wordly at wordly_
  split at wordly_
  · rcases starts with same | same
    · rw [← (cons.inj same).1] at isDigit
      cases isDigit
    · rw [(cons.inj (cons.inj same).2).1, isDigit] at wordly_
      cases wordly_
  · rcases starts with same | same
    · rw [(cons.inj same).1, isDigit] at wordly_
      cases wordly_
    · rw [(cons.inj same).1] at wordly_
      cases wordly_
  · cases wordly_

variable {fuel : ℕ}

theorem parseValue_number (isDigit : digit first = true)
    (starts : input = first :: more ∨ input = 45 :: first :: more) :
    parseValue numbers (fuel + 1) input = readNumber numbers input := by
  have digits : 48 ≤ first ∧ first ≤ 57 := of_decide_eq_true isDigit
  have other : ∀ code, 48 ≤ code ∧ code ≤ 57 ∨ code = 45 ∨ ∀ rest, input ≠ code :: rest := by
    intro code
    by_contra none_
    push Not at none_
    obtain ⟨low, sign, rest, same⟩ := none_
    rcases starts with rfl | rfl
    · obtain ⟨rfl, -⟩ := cons.inj same
      omega
    · exact sign (cons.inj same).1.symm
  rw [parseValue, readWord_number numbers.constants isDigit starts]
  · rfl
  · intro rest same
    exact ((other 34).resolve_left (by decide)).resolve_left (by decide) rest same
  · intro rest same
    exact ((other 91).resolve_left (by decide)).resolve_left (by decide) rest same
  · intro rest same
    exact ((other 123).resolve_left (by decide)).resolve_left (by decide) rest same

theorem skip_starts (starts : blank first = false) : skip (first :: more) = first :: more :=
  dropWhile_cons_of_neg (by rw [starts]; exact Bool.false_ne_true)

theorem skip_blanks {blanks : Text} (all : ∀ code ∈ blanks, blank code = true) (rest : Text) :
    skip (blanks ++ rest) = skip rest := dropWhile_append_of_pos all

/-- The text of a value starts with a character that is neither a blank nor a closing bracket. -/
theorem dumps_starts (style : Style) {value : Json} (readable : value.Readable numbers) :
    ∃ first more, codes (dumps style value) = first :: more ∧ blank first = false ∧ first ≠ 93 ∧ first < 128 := by
  have number : ∀ {first more input}, digit first = true → (input = first :: more ∨ input = 45 :: first :: more) →
      ∃ first more, input = first :: more ∧ blank first = false ∧ first ≠ 93 ∧ first < 128 := by
    intro first more input isDigit starts
    have digits : 48 ≤ first ∧ first ≤ 57 := of_decide_eq_true isDigit
    rcases starts with rfl | rfl
    · exact ⟨_, _, rfl, decide_eq_false (by omega), by omega, by omega⟩
    · exact ⟨_, _, rfl, rfl, by decide, by decide⟩
  cases value with
  | null | str => exact ⟨_, _, rfl, rfl, by decide, by decide⟩
  | bool value =>
    cases value with
    | false | true => exact ⟨_, _, rfl, rfl, by decide, by decide⟩
  | int value =>
    have none_ : Ends [] := nofun
    have read := readLiteral_digits value.natAbs none_ (decide (value < 0))
    obtain ⟨first, more, isDigit, starts⟩ := readLiteral_head read
    rw [append_nil, ← codes_append] at starts
    have same : (toString value).toList = (if decide (value < 0) = true then ['-'] else [])
        ++ Nat.toDigits 10 value.natAbs := by
      rw [int_text]
      simp
    rw [dumps, same]
    exact number isDigit starts
  | float value shortest =>
    obtain ⟨read, found, -⟩ := readable.1 [] nofun
    obtain ⟨first, more, isDigit, starts⟩ := readLiteral_head found
    rw [append_nil] at starts
    exact number isDigit starts
  | nonFinite constant => cases constant <;> exact ⟨_, _, rfl, rfl, by decide, by decide⟩
  | list items => exact ⟨_, _, by rw [dumps_list]; rfl, rfl, by decide, by decide⟩
  | object entries => exact ⟨_, _, by rw [dumps_object]; rfl, rfl, by decide, by decide⟩

/-- The text of a value is read as the value, whatever follows it. -/
def Reads (numbers : Numbers) (style : Style) (value : Json) : Prop :=
  ∀ fuel rest, (dumps style value).length ≤ fuel → Ends rest →
    parseValue numbers fuel (codes (dumps style value) ++ rest) = some (value.arranged style, rest)

theorem ends_of_separator (separates : style.Separates) (rest : Text) :
    Ends (codes style.item ++ rest) := by
  obtain ⟨⟨blanks, item, -⟩, -⟩ := separates
  rw [item]
  intro code mem
  cases mem
  exact ⟨rfl, by decide, by decide, by decide⟩

theorem ends_of_close {code : ℕ} (close : code = 93 ∨ code = 125) (rest : Text) : Ends (code :: rest) := by
  intro other mem
  cases mem
  rcases close with rfl | rfl
  all_goals exact ⟨rfl, by decide, by decide, by decide⟩

theorem intercalate_starts (separator piece : List Char) (pieces : List (List Char)) :
    ∃ more, separator.intercalate (piece :: pieces) = piece ++ more := by
  cases pieces with
  | nil => exact ⟨[], by rw [intercalate_singleton, append_nil]⟩
  | cons next pieces => exact ⟨_, by rw [intercalate_cons_cons, append_assoc]⟩

theorem parseItems_texts (separates : style.Separates) {items : List Json} (some_ : items ≠ [])
    (reads : ∀ item ∈ items, item.Readable numbers ∧ Reads numbers style item) (fuel : ℕ) (rest : Text)
    (enough : (style.item.intercalate (items.map (dumps style))).length < fuel) :
    parseItems numbers fuel (codes (style.item.intercalate (items.map (dumps style))) ++ 93 :: rest)
      = some (items.map (arranged style), rest) := by
  induction items generalizing fuel with
  | nil => exact absurd rfl some_
  | cons item others known =>
    obtain ⟨here, later⟩ := forall_mem_cons.mp reads
    cases fuel with
    | zero => omega
    | succ fuel =>
      cases others with
      | nil =>
        rw [map_singleton, intercalate_singleton] at enough ⊢
        rw [parseItems, here.2 fuel (93 :: rest) (by omega) (ends_of_close (Or.inl rfl) rest)]
        rfl
      | cons next others =>
        rw [map_cons, map_cons, intercalate_cons_cons, length_append, length_append] at enough
        obtain ⟨⟨blanks, item_, all⟩, separated⟩ := separates
        have separator : 1 ≤ style.item.length := by
          rw [← codes_length, item_]
          exact Nat.succ_le_succ (Nat.zero_le _)
        have tail := known (by simp) later fuel (by rw [map_cons]; omega)
        obtain ⟨first, more, starts, unblank, -⟩ := dumps_starts style (later next mem_cons_self).1
        obtain ⟨after, joined⟩ := intercalate_starts style.item (dumps style next) (others.map (dumps style))
        have left : skip (codes (style.item.intercalate ((next :: others).map (dumps style))) ++ 93 :: rest)
            = codes (style.item.intercalate ((next :: others).map (dumps style))) ++ 93 :: rest := by
          rw [map_cons, joined, codes_append, starts]
          exact skip_starts unblank
        rw [map_cons, map_cons, intercalate_cons_cons, codes_append, codes_append,
          append_assoc, append_assoc, parseItems,
          here.2 fuel _ (by omega) (ends_of_separator ⟨⟨blanks, item_, all⟩, separated⟩ _), item_]
        show (parseItems numbers fuel (skip (blanks ++ _))).bind _ = _
        rw [skip_blanks all, ← map_cons, left, tail]
        rfl

theorem parseEntries_texts (separates : style.Separates)
    (some_ : entries ≠ [])
    (reads : ∀ entry ∈ entries, Plain entry.1 ∧ entry.2.Readable numbers ∧ Reads numbers style entry.2)
    (fuel : ℕ) (rest : Text)
    (enough : (style.item.intercalate (entries.map (entryText style))).length < fuel) :
    parseEntries numbers fuel (codes (style.item.intercalate (entries.map (entryText style))) ++ 125 :: rest)
      = some (entries.map fun entry => (entry.1, entry.2.arranged style), rest) := by
  induction entries generalizing fuel with
  | nil => exact absurd rfl some_
  | cons entry others known =>
    obtain ⟨⟨plain, readable, here⟩, later⟩ := forall_mem_cons.mp reads
    obtain ⟨⟨blanks, item_, all⟩, ⟨blanks', key_, all'⟩⟩ := separates
    -- The key, the separator behind it and the value are read.
    have one : ∀ fuel after, (dumps style entry.2).length ≤ fuel → Ends after →
        ∃ input, codes (entryText style entry) ++ after = 34 :: input ∧ ∃ behind,
          readString input = some (entry.1, 58 :: behind) ∧
            parseValue numbers fuel (skip behind) = some (entry.2.arranged style, after) := by
      intro fuel after enough ends
      obtain ⟨first, more, starts, unblank, -⟩ := dumps_starts style readable
      obtain ⟨input, same, found⟩ := readString_quote plain (codes style.key ++ (codes (dumps style entry.2) ++ after))
      refine ⟨input, ?_, blanks' ++ (codes (dumps style entry.2) ++ after), ?_, ?_⟩
      · unfold entryText
        rw [codes_append, codes_append, append_assoc, append_assoc, same]
      · rw [found, key_]
        rfl
      · rw [skip_blanks all']
        have whole : skip (codes (dumps style entry.2) ++ after) = codes (dumps style entry.2) ++ after := by
          rw [starts]
          exact skip_starts unblank
        rw [whole]
        exact here fuel after enough ends
    have longer : (dumps style entry.2).length ≤ (entryText style entry).length := by
      unfold entryText
      rw [length_append]
      omega
    cases fuel with
    | zero => omega
    | succ fuel =>
      cases others with
      | nil =>
        rw [map_singleton, intercalate_singleton] at enough ⊢
        obtain ⟨input, same, behind, key, value⟩ :=
          one fuel (125 :: rest) (by omega) (ends_of_close (Or.inr rfl) rest)
        rw [same, parseEntries, key]
        show (parseValue numbers fuel (skip behind)).bind _ = _
        rw [value]
        rfl
      | cons next others =>
        rw [map_cons, map_cons, intercalate_cons_cons, length_append, length_append] at enough
        have separator : 1 ≤ style.item.length := by
          rw [← codes_length, item_]
          exact Nat.succ_le_succ (Nat.zero_le _)
        have tail := known (by simp) later fuel (by rw [map_cons]; omega)
        obtain ⟨after, joined⟩ :=
          intercalate_starts style.item (entryText style next) (others.map (entryText style))
        have left : skip (codes (style.item.intercalate ((next :: others).map (entryText style))) ++ 125 :: rest)
            = codes (style.item.intercalate ((next :: others).map (entryText style))) ++ 125 :: rest := by
          rw [map_cons, joined]
          exact skip_starts rfl
        obtain ⟨input, same, behind, key, value⟩ := one fuel (codes style.item
          ++ (codes (style.item.intercalate ((next :: others).map (entryText style))) ++ 125 :: rest))
          (by omega) (ends_of_separator ⟨⟨blanks, item_, all⟩, ⟨blanks', key_, all'⟩⟩ _)
        rw [map_cons, map_cons, intercalate_cons_cons, codes_append, codes_append,
          append_assoc, append_assoc, ← map_cons, same, parseEntries, key]
        show (parseValue numbers fuel (skip behind)).bind _ = _
        rw [value, item_]
        show (parseEntries numbers fuel (skip (blanks ++ _))).bind _ = _
        rw [skip_blanks all, left, tail]
        rfl

theorem parseValue_list (starts : skip input = first :: more) (open_ : first ≠ 93) :
    parseValue numbers (fuel + 1) (91 :: input)
      = (parseItems numbers fuel (first :: more)).map fun read => (.list read.1, read.2) := by
  rw [parseValue, starts]
  split
  · rename_i same
    exact absurd (cons.inj same).1 open_
  · rfl

theorem parseValue_object (starts : skip input = first :: more) (open_ : first ≠ 125) :
    parseValue numbers (fuel + 1) (123 :: input)
      = (parseEntries numbers fuel (first :: more)).map fun read => (.object read.1, read.2) := by
  rw [parseValue, starts]
  split
  · rename_i same
    exact absurd (cons.inj same).1 open_
  · rfl

theorem dumps_fuel {value : Json} (readable : value.Readable numbers)
    (enough : (dumps style value).length ≤ fuel) : ∃ less, fuel = less + 1 := by
  obtain ⟨first, more, starts, -⟩ := dumps_starts style readable
  have length := congrArg length starts
  rw [codes_length, length_cons] at length
  exact Nat.exists_eq_add_one.mpr (by omega)

section

variable {value : Json} (separates : style.Separates) (readable : value.Readable numbers)
include separates readable

/-- **The text of a value is read as the value**, with its keys in the order of the text. -/
theorem parseValue_dumps : Reads numbers style value := by
  induction value using Json.byParts with
  | null =>
    intro fuel rest enough _
    obtain ⟨fuel, rfl⟩ := dumps_fuel readable enough
    rfl
  | bool value =>
    intro fuel rest enough _
    obtain ⟨fuel, rfl⟩ := dumps_fuel readable enough
    cases value <;> rfl
  | int value =>
    intro fuel rest enough ends
    obtain ⟨fuel, rfl⟩ := dumps_fuel readable enough
    have same : codes (toString value).toList ++ rest = codes (if decide (value < 0) then ['-'] else [])
        ++ (codes (Nat.toDigits 10 value.natAbs) ++ rest) := by
      rw [int_text, codes_append, append_assoc]
      simp
    have read := readLiteral_digits value.natAbs ends (decide (value < 0))
    rw [← same] at read
    obtain ⟨first, more, isDigit, starts⟩ := readLiteral_head read
    rw [dumps, parseValue_number isDigit starts]
    exact readNumber_int readable ends
  | float value shortest =>
    intro fuel rest enough ends
    obtain ⟨fuel, rfl⟩ := dumps_fuel readable enough
    obtain ⟨literal, value_⟩ := readable
    obtain ⟨read, found, -⟩ := literal rest ends
    obtain ⟨first, more, isDigit, starts⟩ := readLiteral_head found
    rw [dumps, parseValue_number isDigit starts, readNumber_float literal ends, value_]
    rfl
  | nonFinite constant =>
    intro fuel rest enough _
    obtain ⟨fuel, rfl⟩ := dumps_fuel readable enough
    have constants : numbers.constants = true := readable
    have word : readWord numbers.constants (codes (dumps style (.nonFinite constant)) ++ rest)
        = some (.nonFinite constant, rest) := by
      rw [constants]
      cases constant <;> rfl
    rw [parseValue, word]
    · rfl
    all_goals
      intro _ same
      cases constant <;> cases (cons.inj same).1
  | str value =>
    intro fuel rest enough _
    obtain ⟨fuel, rfl⟩ := dumps_fuel readable enough
    obtain ⟨input, same, found⟩ := readString_quote readable rest
    rw [dumps, same, parseValue, found]
    rfl
  | list items known =>
    intro fuel rest enough _
    obtain ⟨fuel, rfl⟩ := dumps_fuel readable enough
    have readable := readableItems_iff.mp readable
    rw [dumps_list, length_cons, length_append, length_singleton] at enough
    rw [dumps_list, codes_cons, codes_append, cons_append, append_assoc]
    by_cases none_ : items = []
    · subst none_
      rfl
    · have all := parseItems_texts separates none_
        (fun item mem => ⟨readable item mem, known item mem (readable item mem)⟩) fuel rest (by omega)
      obtain ⟨item, others, rfl⟩ := exists_cons_of_ne_nil none_
      obtain ⟨first, more, starts, unblank, open_, -⟩ := dumps_starts style (readable item mem_cons_self)
      obtain ⟨after, joined⟩ := intercalate_starts style.item (dumps style item) (others.map (dumps style))
      have left : codes (style.item.intercalate ((item :: others).map (dumps style))) ++ 93 :: rest
          = first :: (more ++ codes after ++ 93 :: rest) := by
        rw [map_cons, joined, codes_append, starts]
        rfl
      have skipped : skip (first :: (more ++ codes after ++ 93 :: rest)) = first :: (more ++ codes after ++ 93 :: rest) :=
        skip_starts unblank
      rw [← left] at skipped
      show parseValue numbers (fuel + 1) (91 :: (codes _ ++ 93 :: rest)) = _
      rw [parseValue_list (skipped.trans left) open_, ← left, all]
      rw [arranged, arrangedItems_map]
      rfl
  | object entries known =>
    intro fuel rest enough _
    obtain ⟨fuel, rfl⟩ := dumps_fuel readable enough
    have readable := readableEntries_iff.mp readable
    rw [dumps_object, length_cons, length_append, length_singleton] at enough
    rw [dumps_object, codes_cons, codes_append, cons_append, append_assoc, arranged,
      arrangedEntries_map, order_map]
    have each : ∀ entry ∈ style.order entries,
        Plain entry.1 ∧ entry.2.Readable numbers ∧ Reads numbers style entry.2 := by
      intro entry mem
      obtain ⟨plain, readable⟩ := readable entry (mem_order.mp mem)
      exact ⟨plain, readable, known entry (mem_order.mp mem) readable⟩
    generalize style.order entries = ordered at enough each ⊢
    by_cases none_ : ordered = []
    · subst none_
      rfl
    · have all := parseEntries_texts separates none_ each fuel rest (by omega)
      obtain ⟨entry, others, rfl⟩ := exists_cons_of_ne_nil none_
      obtain ⟨after, joined⟩ := intercalate_starts style.item (entryText style entry) (others.map (entryText style))
      obtain ⟨more, starts⟩ : ∃ more, codes (style.item.intercalate ((entry :: others).map (entryText style)))
          ++ 125 :: rest = 34 :: more := by
        rw [map_cons, joined]
        exact ⟨_, rfl⟩
      show parseValue numbers (fuel + 1) (123 :: (codes _ ++ 125 :: rest)) = _
      have skipped : skip (34 :: more) = 34 :: more := skip_starts rfl
      rw [← starts] at skipped
      rw [parseValue_object (skipped.trans starts) (by decide), ← starts, all]
      rfl

/-- **The text of a value is read as it**, with its keys in the order of the text. -/
theorem loads_dumps : loads numbers (codes (dumps style value)) = some (value.arranged style) := by
  obtain ⟨first, more, starts, unblank, -, small⟩ := dumps_starts style readable
  have mark : (codes (dumps style value)).head? ≠ some 65279 := by
    rw [starts]
    intro same
    have same := Option.some.inj same
    omega
  have skipped : skip (codes (dumps style value)) = codes (dumps style value) := by
    rw [starts]
    exact skip_starts unblank
  have read := parseValue_dumps separates readable ((dumps style value).length + 1) [] (by omega)
    nofun
  rw [append_nil] at read
  unfold loads
  rw [if_neg mark, skipped, codes_length, read]
  rfl

end

end TinyDSV41.Lib
