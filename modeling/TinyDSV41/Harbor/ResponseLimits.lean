/-
**Committed completions and the reader of the agent.**

The GPU relay takes a completion of up to two mebibytes, the CPU relay commits it inside of a result, and
the agent reads results of up to one mebibyte, without the constants that JSON does not have and without
a key twice in one object.

* `executeGeneration`, `checkResult` — which completions and results the relays take.
* `boundedResponse` — whether the agent reads the file of a result.
* `committed_read_iff` — which committed results the agent reads.
-/

import TinyDSV41.Harbor.GenerationLimits
import Mathlib.Data.List.Perm.Subperm

namespace TinyDSV41.Harbor

open List Lib

/-! ### The relays and the reader -/

/-- `MAX_RESPONSE` of the relay. -/
def maxResponse : ℕ := 2 * 1024 * 1024

/-- `MAX_RESPONSE_BYTES` of the agent. -/
def maxResponseBytes : ℕ := 1024 * 1024

/-- `execute_generation` takes a completion, read from a body of a number of bytes, as finished. -/
def executeGeneration (bytes : ℕ) (completion : Json) : Except String Unit :=
  if maxResponse < bytes then .error "Upstream response too large"
  else if completion.isObject = false then .error "Invalid model response"
  else match completion.get "choices" with
    | some (.list _) =>
      if maxResponse < (encoded completion).length then .error "Encoded model response too large"
      else .ok ()
    | _ => .error "Invalid model response"

def resultFields (ok failed : Bool) : List String :=
  if ok then ["id", "ok", "response"]
  else if failed then ["id", "ok", "error", "generation_failure"] else ["id", "ok", "error"]

/-- The checks of `RelayState.result`; `valid` says whether a failure receipt is valid for the claimed
job. -/
def checkResult (valid : Json → Bool) (value : Json) : Except String Unit :=
  match value.get "id" with
  | some (.str id) =>
    if isId id = false then .error "Invalid result ID"
    else match value.get "ok" with
      | some (.bool ok) =>
        let fields := (resultFields ok (value.get "generation_failure").isSome).map text
        if (∃ key ∈ value.keys, key ∉ fields) ∨ ∃ key ∈ fields, key ∉ value.keys then
          .error "Invalid result fields"
        else if ok then
          if ((value.get "response").any Json.isObject) = false then
            .error "Response must be an object"
          else .ok ()
        else match value.get "error" with
          | some (.str error) =>
            if 1000 < error.length then .error "Invalid error"
            else if ((value.get "generation_failure").all valid) = false then
              .error "invalid bound generation failure receipt"
            else .ok ()
          | _ => .error "Invalid error"
      | _ => .error "Invalid result status"
  | _ => .error "Invalid result ID"

/-- `bounded_response` reads the file that holds the text of a value. -/
def boundedResponse (value : Json) : Bool :=
  decide (0 < (encoded value).length ∧ (encoded value).length ≤ maxResponseBytes) && value.strict

def completionResult (id : Text) (completion : Json) : Json :=
  object [("id", .str id), ("ok", .bool true), ("response", completion)]

/-! ### The text of a result -/

section Results

variable {valid : Json → Bool} {id error : Text} {response receipt value : Json}
  {entries other : List (Text × Json)}

theorem encoded_perm_length (perm : entries.Perm other) :
    (encoded (.object entries)).length = (encoded (.object other)).length := by
  unfold encoded
  rw [dumps_object_length, dumps_object_length, (perm.map _).sum_eq, perm.length_eq]

theorem strictEntries_eq_all (entries : List (Text × Json)) :
    strictEntries entries = entries.all fun entry => entry.2.strict := by
  induction entries with
  | nil => rfl
  | cons entry rest known => rw [strictEntries, known, all_cons]

theorem strict_perm (perm : entries.Perm other) :
    (Json.object entries).strict = (Json.object other).strict := by
  rw [Json.strict, Json.strict, strictEntries_eq_all, strictEntries_eq_all, perm.all_eq]
  congr 1
  exact decide_eq_decide.mpr (perm.map _).nodup_iff

theorem boundedResponse_perm (perm : entries.Perm other) :
    boundedResponse (.object entries) = boundedResponse (.object other) := by
  unfold boundedResponse
  rw [encoded_perm_length perm, strict_perm perm]

variable {names : List (String × Json)}

theorem entries_perm (distinct : (entries.map Prod.fst).Nodup)
    (fields : ∀ key ∈ entries.map Prod.fst, key ∈ (names.map Prod.fst).map text)
    (single : (names.map Prod.fst).Nodup)
    (found : ∀ entry ∈ names, (Json.object entries).get entry.1 = some entry.2) :
    entries.Perm (names.map fun entry => (text entry.1, entry.2)) := by
  have inside : names.map (fun entry => (text entry.1, entry.2)) ⊆ entries := by
    intro entry mem
    obtain ⟨name, present, rfl⟩ := mem_map.mp mem
    obtain ⟨found, there, same⟩ := Option.map_eq_some_iff.mp (found name present)
    have key := find?_some there
    rw [decide_eq_true_iff] at key
    rw [← key, ← same]
    exact mem_of_find?_eq_some there
  have canonical : (names.map fun entry => (text entry.1, entry.2)).Nodup := by
    refine List.Nodup.of_map Prod.fst ?_
    rw [map_map]
    have keys : (Prod.fst ∘ fun entry : String × Json => (text entry.1, entry.2)) = text ∘ Prod.fst := rfl
    rw [keys, ← map_map]
    exact single.map text_injective
  have fewer : entries.length ≤ (names.map fun entry => (text entry.1, entry.2)).length := by
    have keys := (subperm_of_subset distinct fields).length_le
    simpa using keys
  exact ((subperm_of_subset canonical inside).perm_of_length_le fewer).symm

theorem id_length (named : isId id = true) : (dumps .compact (.str id)).length = 34 := by
  unfold isId at named
  rw [Bool.and_eq_true, beq_iff_eq] at named
  obtain ⟨digits, hexadecimal⟩ := named
  rw [dumps, quote_plain_length, digits]
  intro code mem
  have range := all_eq_true.mp hexadecimal code mem
  simp only [Bool.or_eq_true, Bool.and_eq_true, decide_eq_true_iff] at range
  omega

theorem key_lengths : (quote (text "id")).length = 4 ∧ (quote (text "ok")).length = 4 ∧
    (quote (text "response")).length = 10 ∧ (quote (text "error")).length = 7 ∧
    (quote (text "generation_failure")).length = 20 := by
  decide +kernel

theorem completed_length (response : Json) (named : isId id = true) :
    (encoded (completionResult id response)).length = (encoded response).length + 63 := by
  obtain ⟨one, two, three, -, -⟩ := key_lengths
  unfold encoded completionResult object
  rw [dumps_object_length]
  simp only [map_cons, map_nil, sum_cons, sum_nil, length_cons,
    length_nil, entryLength, one, two, three, id_length named]
  simp [Style.compact, dumps]
  omega

theorem failed_length (error : Text) (receipt : Json) (named : isId id = true) :
    (encoded (object [("id", .str id), ("ok", .bool false), ("error", .str error)])).length
      = (quote error).length + 61 ∧
    (encoded (object [("id", .str id), ("ok", .bool false), ("error", .str error),
        ("generation_failure", receipt)])).length
      = (quote error).length + (encoded receipt).length + 83 := by
  obtain ⟨one, two, -, four, five⟩ := key_lengths
  unfold encoded object
  rw [dumps_object_length, dumps_object_length]
  simp only [map_cons, map_nil, sum_cons, sum_nil, length_cons,
    length_nil, entryLength, one, two, four, five, id_length named]
  simp [Style.compact, dumps]
  omega

/-- A value has the entries of an object with literal keys, in some order. -/
def SameEntries (value : Json) (names : List (String × Json)) : Prop :=
  ∃ entries, value = .object entries ∧ entries.Perm (names.map fun entry => (text entry.1, entry.2))

theorem SameEntries.read (same : SameEntries value names) :
    boundedResponse value = boundedResponse (object names) := by
  obtain ⟨entries, rfl, perm⟩ := same
  exact boundedResponse_perm perm

theorem sameEntries_of_found (object : value.isObject = true) (distinct : value.keys.Nodup)
    (single : (names.map Prod.fst).Nodup)
    (fields : ¬ ∃ key ∈ value.keys, key ∉ (names.map Prod.fst).map text)
    (found : ∀ entry ∈ names, value.get entry.1 = some entry.2) : SameEntries value names := by
  cases value with
  | object entries =>
    refine ⟨entries, rfl, entries_perm distinct (fun key mem => ?_) single found⟩
    by_contra other
    exact fields ⟨key, mem, other⟩
  | _ => cases object

theorem isObject_of_get {key : String} {inner : Json} (found : value.get key = some inner) :
    value.isObject = true := by
  cases value with
  | object entries => rfl
  | _ => cases found

/-- A result that is committed is a completion, an error, or an error with a receipt. -/
theorem checkResult_cases (distinct : value.keys.Nodup)
    (committed : checkResult valid value = .ok ()) : ∃ id, isId id = true ∧
      ((∃ response, value.get "ok" = some (.bool true) ∧ value.get "response" = some response ∧
          SameEntries value [("id", .str id), ("ok", .bool true), ("response", response)]) ∨
        (∃ error, value.get "ok" = some (.bool false) ∧ value.get "generation_failure" = none ∧
          error.length ≤ 1000 ∧
          SameEntries value [("id", .str id), ("ok", .bool false), ("error", .str error)]) ∨
        ∃ error receipt, value.get "ok" = some (.bool false) ∧ value.get "error" = some (.str error) ∧
          value.get "generation_failure" = some receipt ∧
          SameEntries value [("id", .str id), ("ok", .bool false), ("error", .str error),
            ("generation_failure", receipt)]) := by
  unfold checkResult at committed
  split at committed
  case h_2 => cases committed
  case h_1 id named =>
    have object := isObject_of_get named
    by_cases digits : isId id = false
    · rw [if_pos digits] at committed
      cases committed
    rw [if_neg digits] at committed
    rw [Bool.not_eq_false] at digits
    refine ⟨id, digits, ?_⟩
    split at committed
    case h_2 => cases committed
    case h_1 ok status =>
      by_cases fields : (∃ key ∈ value.keys, key ∉ (resultFields ok
          (value.get "generation_failure").isSome).map text) ∨
          ∃ key ∈ (resultFields ok (value.get "generation_failure").isSome).map text, key ∉ value.keys
      · rw [if_pos fields] at committed
        cases committed
      rw [if_neg fields] at committed
      rw [not_or] at fields
      cases ok with
      | true =>
        left
        rw [if_pos rfl] at committed
        split_ifs at committed with bad
        rw [Bool.not_eq_false] at bad
        cases there : value.get "response" with
        | none =>
          rw [there] at bad
          cases bad
        | some response =>
          exact ⟨response, status, rfl, sameEntries_of_found object distinct (by simp) fields.1
            (by simp [named, status, there])⟩
      | false =>
        right
        rw [if_neg (by decide)] at committed
        split at committed
        case h_2 => cases committed
        case h_1 error failed =>
          split_ifs at committed with long invalid
          rw [not_lt] at long
          cases there : value.get "generation_failure" with
          | none =>
            left
            rw [there] at fields
            exact ⟨error, status, rfl, long, sameEntries_of_found object distinct (by simp) fields.1
              (by simp [named, status, failed])⟩
          | some receipt =>
            right
            rw [there] at fields
            exact ⟨error, receipt, status, failed, rfl, sameEntries_of_found object distinct (by simp) fields.1
              (by simp [named, status, failed, there])⟩

/-- The response of a result, or its receipt, fits the reader: it is strict, and short enough for its
place in the text. -/
structure FitsReader (value : Json) : Prop where
  response : ∀ response, value.get "ok" = some (.bool true) → value.get "response" = some response →
    (encoded response).length ≤ 1048513 ∧ response.strict = true
  receipt : ∀ error receipt, value.get "ok" = some (.bool false) →
    value.get "error" = some (.str error) → value.get "generation_failure" = some receipt →
      (quote error).length + (encoded receipt).length ≤ 1048493 ∧ receipt.strict = true

theorem key_literals : (["id", "ok", "response"].map fun name => quote (text name)).Nodup ∧
    (["id", "ok", "error", "generation_failure"].map fun name => quote (text name)).Nodup := by
  decide +kernel

theorem strict_object (names : List (String × Json))
    (plain : ((names.map Prod.fst).map fun name => quote (text name)).Nodup) :
    (object names).strict = names.all fun entry => entry.2.strict := by
  have literals : ((names.map fun entry => (text entry.1, entry.2)).map fun entry => quote entry.1)
      = (names.map Prod.fst).map fun name => quote (text name) := by
    rw [map_map, map_map]
    rfl
  rw [object, Json.strict, strictEntries_eq_all, literals, decide_eq_true plain, Bool.true_and, all_map]
  rfl

theorem boundedResponse_iff : boundedResponse value = true ↔
    (0 < (encoded value).length ∧ (encoded value).length ≤ maxResponseBytes) ∧ value.strict = true := by
  rw [boundedResponse, Bool.and_eq_true, decide_eq_true_iff]

/-- The agent reads a committed result exactly if its response, or its receipt, fits. -/
theorem boundedResponse_committed (distinct : value.keys.Nodup)
    (committed : checkResult valid value = .ok ()) :
    boundedResponse value = true ↔ FitsReader value := by
  obtain ⟨completed, failed⟩ := key_literals
  obtain ⟨id, named, ⟨response, ok, there, same⟩ | ⟨error, ok, absent, short, same⟩ |
    ⟨error, receipt, ok, failure, there, same⟩⟩ := checkResult_cases distinct committed
  · have size := completed_length response named
    have strictly : (completionResult id response).strict = response.strict := by
      have plain := strict_object [("id", .str id), ("ok", .bool true), ("response", response)] completed
      rw [completionResult, plain]
      simp [Json.strict]
    rw [same.read, ← completionResult, boundedResponse_iff, size, strictly]
    constructor
    · rintro ⟨⟨-, fits⟩, strict⟩
      unfold maxResponseBytes at fits
      refine ⟨fun other _ found => ?_, fun _ _ wrong => ?_⟩
      · obtain rfl := Option.mem_unique there found
        exact ⟨by omega, strict⟩
      · rw [ok] at wrong
        cases wrong
    · intro fits
      obtain ⟨size, strict⟩ := fits.response response ok there
      unfold maxResponseBytes
      exact ⟨by omega, strict⟩
  · obtain ⟨size, -⟩ := failed_length error .null named
    have strictly : (object [("id", .str id), ("ok", .bool false), ("error", .str error)]).strict
        = true := by
      have plain := strict_object [("id", .str id), ("ok", .bool false), ("error", .str error)]
        (failed.sublist (by simp))
      rw [plain]
      simp [Json.strict]
    have escaped := quote_length_le error
    rw [same.read, boundedResponse_iff, size, strictly]
    unfold maxResponseBytes
    refine ⟨fun _ => ⟨fun _ wrong => ?_, fun _ _ _ _ wrong => ?_⟩, fun _ => ⟨by omega, rfl⟩⟩
    · rw [ok] at wrong
      cases wrong
    · rw [absent] at wrong
      cases wrong
  · obtain ⟨-, size⟩ := failed_length error receipt named
    have strictly : (object [("id", .str id), ("ok", .bool false), ("error", .str error),
        ("generation_failure", receipt)]).strict = receipt.strict := by
      have plain := strict_object [("id", .str id), ("ok", .bool false), ("error", .str error),
        ("generation_failure", receipt)] failed
      rw [plain]
      simp [Json.strict]
    rw [same.read, boundedResponse_iff, size, strictly]
    unfold maxResponseBytes
    constructor
    · rintro ⟨⟨-, fits⟩, strict⟩
      refine ⟨fun _ wrong => ?_, fun other found _ text present => ?_⟩
      · rw [ok] at wrong
        cases wrong
      · rw [failure] at text
        rw [there] at present
        cases text
        cases present
        exact ⟨by omega, strict⟩
    · intro fits
      obtain ⟨size, strict⟩ := fits.receipt error receipt ok failure there
      exact ⟨by omega, strict⟩

theorem checkResult_completion {bytes : ℕ} {completion : Json} (named : isId id = true)
    (finished : executeGeneration bytes completion = .ok ()) :
    checkResult valid (completionResult id completion) = .ok () := by
  have shape : completion.isObject = true := by
    by_contra other
    rw [Bool.not_eq_true] at other
    rw [executeGeneration, if_pos other] at finished
    split_ifs at finished
  have name : (completionResult id completion).get "id" = some (.str id) := by
    simp [completionResult]
  have ok : (completionResult id completion).get "ok" = some (.bool true) := by
    simp [completionResult]
  have there : (completionResult id completion).get "response" = some completion := by
    simp [completionResult]
  have keys : (completionResult id completion).keys = (resultFields true false).map text :=
    object_keys
  have absent : (completionResult id completion).get "generation_failure" = none := by
    simp [completionResult]
  unfold checkResult
  simp [name, named, ok, keys, there, shape, absent]

/-- **Which results the agent reads.** Of a committed result it takes a response of at most 1048513
characters, or an error and a receipt of at most 1048493, that have no foreign constant and no key twice;
every finished completion is committed, and is read under the same condition. -/
theorem committed_read_iff (valid : Json → Bool) :
    (∀ value : Json, value.keys.Nodup → checkResult valid value = .ok () →
      (boundedResponse value = true ↔ FitsReader value)) ∧
    ∀ (id : Text) (bytes : ℕ) (completion : Json), isId id = true →
      executeGeneration bytes completion = .ok () →
        checkResult valid (completionResult id completion) = .ok () ∧
        (boundedResponse (completionResult id completion) = true ↔
          (encoded completion).length ≤ 1048513 ∧ completion.strict = true) := by
  refine ⟨fun value => boundedResponse_committed,
    fun id bytes completion named finished => ?_⟩
  have committed : checkResult valid (completionResult id completion) = .ok () :=
    checkResult_completion named finished
  have distinct : (completionResult id completion).keys.Nodup := by
    rw [completionResult, object_keys]
    exact List.Nodup.map text_injective (by simp)
  have ok : (completionResult id completion).get "ok" = some (.bool true) := by
    simp [completionResult]
  have there : (completionResult id completion).get "response" = some completion := by
    simp [completionResult]
  refine ⟨committed, (boundedResponse_committed distinct committed).trans ?_⟩
  constructor
  · intro fits
    exact fits.response completion ok there
  · intro fits
    refine ⟨fun other _ found => ?_, fun _ _ wrong => ?_⟩
    · obtain rfl := Option.mem_unique there found
      exact fits
    · rw [ok] at wrong
      cases wrong

end Results

/-! ### A completion that is finished and committed, and never read -/

/-- A completion with a text of a number of letters besides its choices. -/
def letters (count : ℕ) : Json :=
  object [("choices", .list []), ("x", .str (replicate count 97))]

theorem letters_length (count : ℕ) : (encoded (letters count)).length = count + 21 := by
  have choices : (quote (text "choices")).length = 9 := by decide +kernel
  have name : (quote (text "x")).length = 3 := by decide +kernel
  have body : (quote (replicate count 97)).length = count + 2 := by
    rw [quote_plain_length, length_replicate]
    intro code mem
    rw [eq_of_mem_replicate mem]
    decide
  unfold encoded letters object
  rw [dumps_object_length]
  simp only [map_cons, map_nil, sum_cons, sum_nil, length_cons,
    length_nil, entryLength, choices, name, dumps, body]
  simp [Style.compact, dumpsItems]
  omega

def sampleId : Text := replicate 32 97

theorem sampleId_named : isId sampleId = true := by decide

theorem letters_finished (count : ℕ) (short : count + 21 ≤ maxResponse) :
    executeGeneration (count + 21) (letters count) = .ok () := by
  have shape : (letters count).isObject = true := rfl
  have choices : (letters count).get "choices" = some (.list []) := by simp [letters]
  unfold executeGeneration
  rw [if_neg (by omega), if_neg (by simp [shape]), choices]
  rw [if_neg (by rw [letters_length]; omega)]

/-- A completion of one mebibyte is finished and committed, and the agent does not read it. -/
theorem large_unread : executeGeneration (1048576 + 21) (letters 1048576) = .ok () ∧
    checkResult (fun _ => false) (completionResult sampleId (letters 1048576)) = .ok () ∧
    boundedResponse (completionResult sampleId (letters 1048576)) = false := by
  have finished := letters_finished 1048576 (by decide)
  refine ⟨finished, checkResult_completion sampleId_named finished, ?_⟩
  rw [← Bool.not_eq_true, boundedResponse_iff, completed_length _ sampleId_named, letters_length]
  intro read
  exact absurd read.1.2 (by decide)

/-- A completion without any letters is read. -/
theorem committed_read_short : executeGeneration 21 (letters 0) = .ok () ∧
    boundedResponse (completionResult sampleId (letters 0)) = true ∧
    (boundedResponse (completionResult sampleId (letters 0)) = true ↔
      FitsReader (completionResult sampleId (letters 0))) := by
  obtain ⟨results, completions⟩ := committed_read_iff fun _ => false
  have finished := letters_finished 0 (by decide)
  obtain ⟨committed, read⟩ := completions sampleId _ _ sampleId_named finished
  refine ⟨finished, read.mpr ⟨?_, by decide +kernel⟩, results _ ?_ committed⟩
  · decide
  · rw [completionResult, object_keys]
    exact List.Nodup.map text_injective (by simp)

end TinyDSV41.Harbor
