/-
**Tensors of an adapter as a manifest and a payload.**

A manifest names the tensors with the rows of the payload they take, and a digest covers both. The receiver
validates all of it again.

* `packUpdate`, `unpackUpdate` — tensors to a manifest and a payload, and back.
* `sendUpdate`, `receiveUpdate` — one frame on a stream.
* `checkDescriptors_rows` — what is accepted of the descriptors.
* `validateUpdate_arranged` — the order of keys does not matter.
* `lora_transport` — the round trips, the tiling, and what a digest determines.

How bytes are hashed, decoded and found finite are parameters.
-/

import TinyDSV41.Lib.ByteStream
import TinyDSV41.Lib.JsonEncoding
import TinyDSV41.Lib.OrderedTable
import TinyDSV41.Lib.Spans
import Mathlib.Data.List.Dedup

namespace TinyDSV41.Serving

open List Lib Option Json Bool

/-- `MAX_MANIFEST_BYTES` -/
def maxManifestBytes : ℕ := 1024 * 1024

/-- `MAX_TENSOR_BYTES` -/
def maxTensorBytes : ℕ := 64 * 1024 * 1024

/-- `MAX_TENSORS` -/
def maxTensors : ℕ := 128

def itemSize (dtype : Text) : Option ℕ :=
  if dtype = text "float16" then some 2 else if dtype = text "bfloat16" then some 2
  else if dtype = text "float32" then some 4 else none

/-- `_SHA` -/
def isSha (value : Text) : Bool :=
  value.length == 64 && value.all fun code => 48 ≤ code && code ≤ 57 || 97 ≤ code && code ≤ 102

/-- `_NAME` -/
def isName (value : Text) : Bool :=
  let stem := value.take (value.length - 14)
  let tail := value.drop (value.length - 14)
  decide (14 < value.length) && (tail == text ".lora_A.weight" || tail == text ".lora_B.weight") &&
    stem.all fun code => 48 ≤ code && code ≤ 57 || 65 ≤ code && code ≤ 90 || 97 ≤ code && code ≤ 122 ||
      code == 95 || code == 46

/-- `_FIELDS` -/
def updateFields : List String :=
  ["schema_version", "version", "lineage", "adapter_id", "peft", "base_identity", "tensors", "payload_sha256",
    "digest"]

/-- `_TENSOR_FIELDS` -/
def tensorFields : List String := ["name", "shape", "dtype", "offset", "nbytes", "sha256"]

/-- What the transport uses besides: the order of the bytes, how numbers of JSON are read, `hashlib.sha256`,
`torch.isfinite` of a type and its bytes, and the text of the bytes of JSON. -/
structure Host where
  littleEndian : Bool
  numbers : Numbers
  sha256 : Octets → Text
  finite : Text → Octets → Bool
  decode : Octets → Option Text
  sha256_plain : ∀ bytes, Plain (sha256 bytes)
  decode_ascii : ∀ bytes, (∀ byte ∈ bytes, 32 ≤ byte ∧ byte ≤ 126) → decode bytes = some bytes

/-- A tensor: its type, its shape and its bytes. -/
@[ext] structure Tensor where
  dtype : Text
  shape : List ℕ
  bytes : Octets
  size : ∀ width, itemSize dtype = some width → bytes.length = shape.prod * width

/-! ### Descriptors -/

def asText : Option Json → Option Text
  | some (.str value) => some value
  | _ => none

def asInt : Option Json → Option ℤ
  | some (.int value) => some value
  | _ => none

def asShape : Option Json → Option (ℤ × ℤ)
  | some (.list [.int rows, .int columns]) => some (rows, columns)
  | _ => none

/-- A descriptor whose fields have their types. -/
structure Descriptor where
  name : Text
  rows : ℤ
  columns : ℤ
  dtype : Text
  offset : ℤ
  nbytes : ℤ
  sha256 : Text

def readDescriptor (item : Json) : Option Descriptor := do
  let name ← asText (item.get "name")
  let shape ← asShape (item.get "shape")
  let dtype ← asText (item.get "dtype")
  let offset ← asInt (item.get "offset")
  let nbytes ← asInt (item.get "nbytes")
  let sha256 ← asText (item.get "sha256")
  return ⟨name, shape.1, shape.2, dtype, offset, nbytes, sha256⟩

def Descriptor.valid (finish : ℕ) (row : Descriptor) : Bool :=
  isName row.name && decide (1 ≤ row.rows ∧ 1 ≤ row.columns) && decide (row.offset = finish) &&
    (itemSize row.dtype).any (fun width : ℕ => decide (row.nbytes = row.rows * row.columns * width)) && isSha row.sha256

section Transport

variable (host : Host)

/-- The names of the descriptors, and where they stop. -/
def checkDescriptors (payload : Octets) : ℕ → List Json → Except String (List Text × ℕ)
  | finish, [] => .ok ([], finish)
  | finish, item :: rest =>
    if item.hasKeys tensorFields = false then .error "invalid direct LoRA tensor descriptor"
    else
      match readDescriptor item with
      -- A type that is no text raises as well where it cannot be looked up.
      | none => .error "invalid direct LoRA tensor shape, dtype, offset, or digest"
      | some row =>
        if row.valid finish = false then .error "invalid direct LoRA tensor shape, dtype, offset, or digest"
        else
          let next := finish + row.nbytes.toNat
          if payload.length < next ∨ host.sha256 ((payload.drop finish).take row.nbytes.toNat) ≠ row.sha256 then
            .error "direct LoRA tensor bytes differ from manifest"
          else (checkDescriptors payload next rest).map fun read => (row.name :: read.1, read.2)

/-! ### Updates -/

/-- The bytes that the digest covers; none where they are not encoded. -/
def signed (manifest : Json) (payload : Octets) : Option Octets :=
  (encode host.numbers (manifest.without "digest")).map fun encoded => encoded ++ 0 :: payload

/-- `_digest` -/
def digest (manifest : Json) (payload : Octets) : Option Text := (signed host manifest payload).map host.sha256

/-- The value equals one: an integer, a float or `True`. -/
def isOne : Option Json → Bool
  | some (.int value) => value == 1
  | some (.float value _) => value == 1
  | some (.bool value) => value
  | _ => false

def checkSchema (manifest : Json) (payload : Octets) : Bool :=
  manifest.hasKeys updateFields && isOne (manifest.get "schema_version") &&
    (asInt (manifest.get "version")).any (fun version => decide (0 ≤ version)) &&
    (asInt (manifest.get "adapter_id")).any (fun adapter => decide (1 ≤ adapter)) &&
    (asText (manifest.get "lineage")).any (fun lineage => decide (0 < lineage.length ∧ lineage.length ≤ 256)) &&
    (manifest.get "peft").any isObject && (manifest.get "base_identity").any isObject &&
    decide (0 < payload.length ∧ payload.length ≤ maxTensorBytes)

/-- `validate_update` -/
def validateUpdate (manifest : Json) (payload : Octets) : Except String Unit :=
  if host.littleEndian = false then .error "direct LoRA tensor transport requires a little-endian host"
  else if checkSchema manifest payload = false then .error "invalid direct LoRA update schema or byte budget"
  else
    match encode host.numbers manifest with
    | none => .error "the manifest is not encoded"
    | some encoded =>
      if maxManifestBytes < encoded.length then .error "direct LoRA manifest exceeds byte budget"
      else
        match manifest.get "tensors" with
        | some (.list tensors) =>
          if ¬ (0 < tensors.length ∧ tensors.length ≤ maxTensors) then
            .error "invalid direct LoRA tensor count"
          else
            match checkDescriptors host payload 0 tensors with
            | .error error => .error error
            | .ok (names, finish) =>
              if names ≠ names.dedup.insertionSort (· ≤ ·) ∨ finish ≠ payload.length then
                .error "direct LoRA tensors must be unique, sorted, and cover the payload"
              else
                match asText (manifest.get "payload_sha256"), asText (manifest.get "digest") with
                | some payloadSha, some stated =>
                  if isSha payloadSha = false ∨ isSha stated = false then
                    .error "invalid direct LoRA payload digest"
                  else if host.sha256 payload ≠ payloadSha ∨ digest host manifest payload ≠ some stated then
                    .error "direct LoRA update digest mismatch"
                  else .ok ()
                | _, _ => .error "invalid direct LoRA payload digest"
        | _ => .error "invalid direct LoRA tensor count"

def descriptorOf (name : Text) (tensor : Tensor) (offset : ℕ) : Json :=
  object [("name", .str name), ("shape", .list (tensor.shape.map fun size : ℕ => .int size)), ("dtype", .str tensor.dtype),
    ("offset", .int offset), ("nbytes", .int tensor.bytes.length), ("sha256", .str (host.sha256 tensor.bytes))]

def describe : ℕ → List (Text × Tensor) → Except String (List Json × Octets)
  | _, [] => .ok ([], [])
  | offset, (name, tensor) :: rest =>
    if itemSize tensor.dtype = none ∨ tensor.shape.length ≠ 2 ∨ host.finite tensor.dtype tensor.bytes = false then
      .error "LoRA tensors must be finite matrices in a supported dtype"
    else if maxTensorBytes < offset + tensor.bytes.length then .error "direct LoRA tensors exceed byte budget"
    else (describe (offset + tensor.bytes.length) rest).map fun read =>
      (descriptorOf host name tensor offset :: read.1, tensor.bytes ++ read.2)

/-- What a manifest says besides its tensors. -/
structure Metadata where
  version : Json
  lineage : Json
  adapterId : Json
  peft : Json
  baseIdentity : Json

def manifestOf (metadata : Metadata) (descriptors : List Json) (payload : Octets) : Json :=
  object [("schema_version", .int 1), ("version", metadata.version), ("lineage", metadata.lineage),
    ("adapter_id", metadata.adapterId), ("peft", metadata.peft), ("base_identity", metadata.baseIdentity),
    ("tensors", .list descriptors), ("payload_sha256", .str (host.sha256 payload))]

/-- `value[key] = inner` for an object. -/
def setKey (value : Json) (key : String) (inner : Json) : Json :=
  match value with
  | .object entries => .object (putEntry entries (text key, inner))
  | value => value

/-- `json.loads` of bytes. -/
def jsonLoads (bytes : Octets) : Option Json := (host.decode bytes).bind (decode host.numbers)

/-- `pack_update` -/
def packUpdate (tensors : OrderedTable Text Tensor) (metadata : Metadata) : Except String (Json × Octets) :=
  if ¬ (0 < tensors.length ∧ tensors.length ≤ maxTensors) then
    .error "a bounded nonempty adapter tensor dictionary is required"
  else
    match describe host 0 (tensors.items.insertionSort fun first second => first.1 ≤ second.1) with
    | .error error => .error error
    | .ok (descriptors, payload) =>
      match (encode host.numbers (manifestOf host metadata descriptors payload)).bind (jsonLoads host) with
      | none => .error "the manifest is not encoded"
      | some manifest =>
        match digest host manifest payload with
        | none => .error "the manifest is not encoded"
        | some found =>
          let manifest := setKey manifest "digest" (.str found)
          (validateUpdate host manifest payload).map fun _ => (manifest, payload)

/-- `torch.frombuffer(raw, dtype).reshape(shape)` -/
def frombuffer (dtype : Text) (shape : List ℕ) (raw : Octets) : Option Tensor :=
  if fits : ∀ width ∈ itemSize dtype, raw.length = shape.prod * width then
    some ⟨dtype, shape, raw, fun width found => fits width found⟩
  else none

def unpackItems (payload : Octets) : List Json → OrderedTable Text Tensor → Except String (OrderedTable Text Tensor)
  | [], table => .ok table
  | item :: rest, table =>
    match readDescriptor item with
    | none => .error "the descriptor misses a field"
    | some row =>
      match frombuffer row.dtype [row.rows.toNat, row.columns.toNat]
          ((payload.drop row.offset.toNat).take row.nbytes.toNat) with
      | none => .error "the buffer has another size"
      | some tensor =>
        if host.finite tensor.dtype tensor.bytes = false then
          .error "direct LoRA update contains nonfinite tensor values"
        else unpackItems payload rest (table.push row.name tensor)

/-- `unpack_update` -/
def unpackUpdate (manifest : Json) (payload : Octets) : Except String (OrderedTable Text Tensor) :=
  match validateUpdate host manifest payload, manifest.get "tensors" with
  | .ok _, some (.list items) => unpackItems host payload items ∅
  | .ok _, _ => .error "the manifest has no tensors"
  | .error error, _ => .error error

/-! ### Frames -/

/-- `send_update`: the bytes that are sent. -/
def sendUpdate (manifest : Json) (payload : Octets) : Except String Octets :=
  match validateUpdate host manifest payload with
  | .error error => .error error
  | .ok _ =>
    match encode host.numbers manifest with
    | none => .error "the manifest is not encoded"
    | some metadata =>
      .ok (bigEndian 4 metadata.length ++ bigEndian 8 payload.length ++ metadata ++ payload)

/-- `_read_exact` -/
def receiveExact (size : ℕ) (stream : ByteStream) : Except String (Octets × ByteStream) :=
  match readExact size stream with
  | none => .error "incomplete direct LoRA tensor frame"
  | some read => .ok read

/-- `receive_update`: the update, and the stream after it. -/
def receiveUpdate (stream : ByteStream) : Except String ((Json × Octets) × ByteStream) := do
  let (header, stream) ← receiveExact 12 stream
  let metadataSize := fromBigEndian (header.take 4)
  let payloadSize := fromBigEndian (header.drop 4)
  if ¬ (0 < metadataSize ∧ metadataSize ≤ maxManifestBytes) ∨ ¬ (0 < payloadSize ∧ payloadSize ≤ maxTensorBytes) then
    .error "direct LoRA frame exceeds byte budget"
  else
    let (metadata, stream) ← receiveExact metadataSize stream
    match jsonLoads host metadata with
    | none => .error "the metadata are no JSON"
    | some manifest =>
      let (payload, stream) ← receiveExact payloadSize stream
      let _ ← validateUpdate host manifest payload
      return ((manifest, payload), stream)

end Transport

/-! ### The descriptors of an update -/

def Descriptor.span (row : Descriptor) : Span := (row.offset, row.offset + row.nbytes)

theorem Descriptor.nonempty {finish : ℕ} {row : Descriptor} (valid : row.valid finish = true) :
    row.offset = finish ∧ 0 < row.nbytes := by
  unfold Descriptor.valid at valid
  simp only [and_eq_true, decide_eq_true_iff, Option.any_eq_true] at valid
  obtain ⟨⟨⟨⟨-, one, two⟩, start⟩, width, supported, bytes⟩, -⟩ := valid
  have positive : 0 < width := by
    unfold itemSize at supported
    split_ifs at supported
    all_goals
      have same := some.inj supported
      omega
  refine ⟨start, ?_⟩
  rw [bytes]
  have wide : (0 : ℤ) < width := by exact_mod_cast positive
  exact Int.mul_pos (Int.mul_pos (by omega) (by omega)) wide

variable {host : Host}

/-- **What is accepted of the descriptors**: they follow each other, within the payload. -/
theorem checkDescriptors_rows {items : List Json} {start finish : ℕ} {names : List Text}
    (found : checkDescriptors host payload start items = .ok (names, finish)) :
    ∃ rows : List Descriptor, items.map readDescriptor = rows.map some ∧ rows.map Descriptor.name = names ∧
      Span.Consecutive start finish (rows.map Descriptor.span) ∧ ∀ row ∈ rows, 0 < row.nbytes := by
  induction items generalizing start names with
  | nil =>
    cases found
    exact ⟨[], rfl, rfl, rfl, nofun⟩
  | cons item rest known =>
    rw [checkDescriptors] at found
    split_ifs at found
    cases read : readDescriptor item with
    | none =>
      rw [read] at found
      cases found
    | some row =>
      rw [read] at found
      dsimp only at found
      split_ifs at found with invalid differs
      obtain ⟨offset, some_⟩ := Descriptor.nonempty (eq_true_of_not_eq_false invalid)
      cases later : checkDescriptors host payload (start + row.nbytes.toNat) rest with
      | error error =>
        rw [later] at found
        cases found
      | ok others =>
        rw [later] at found
        cases found
        obtain ⟨rows, same, named, consecutive, all⟩ := known later
        have next : row.span.2 = ((start + row.nbytes.toNat : ℕ) : ℤ) := by
          show row.offset + row.nbytes = _
          omega
        refine ⟨row :: rows, ?_, ?_, ⟨offset, ?_, ?_⟩, forall_mem_cons.mpr ⟨some_, all⟩⟩
        · rw [map_cons, map_cons, read, same]
        · rw [map_cons, named]
        · rw [next, show row.span.1 = start from offset]
          omega
        · rw [next]
          exact consecutive

theorem sorted_strictly {names : List Text} (same : names = names.dedup.insertionSort (· ≤ ·)) :
    names.Pairwise (· < ·) := by
  have sorted : (names.dedup.insertionSort (· ≤ ·)).Pairwise (· ≤ ·) := pairwise_insertionSort _ _
  have distinct : (names.dedup.insertionSort (· ≤ ·)).Nodup :=
    (perm_insertionSort _ _).nodup_iff.mpr (nodup_dedup names)
  rw [same]
  exact (pairwise_and_iff.mpr ⟨sorted, distinct⟩).imp fun both => Std.lt_of_le_of_ne both.1 both.2

structure Accepted (host : Host) (manifest : Json) (payload : Octets) : Prop where
  little : host.littleEndian = true
  schema : checkSchema manifest payload = true
  encoded : ∃ encoded, encode host.numbers manifest = some encoded ∧ encoded.length ≤ maxManifestBytes
  tensors : ∃ items names, manifest.get "tensors" = some (.list items) ∧
    checkDescriptors host payload 0 items = .ok (names, payload.length) ∧ names = names.dedup.insertionSort (· ≤ ·)
  stated : ∃ stated, asText (manifest.get "digest") = some stated ∧ digest host manifest payload = some stated

theorem accepted_of_validate {manifest : Json} (valid : validateUpdate host manifest payload = .ok ()) :
    Accepted host manifest payload := by
  unfold validateUpdate at valid
  split_ifs at valid with foreign invalid
  split at valid
  · cases valid
  · rename_i encoded text
    split_ifs at valid with large
    split at valid
    · rename_i items listed
      split_ifs at valid
      split at valid
      · cases valid
      · rename_i names finish rows
        split_ifs at valid with unsorted
        split at valid
        · rename_i payloadSha stated _ said
          split_ifs at valid with _ differs
          obtain ⟨sorted, whole⟩ := not_or.mp unsorted
          have whole := not_not.mp whole
          exact ⟨eq_true_of_not_eq_false foreign, eq_true_of_not_eq_false invalid,
            ⟨encoded, text, Nat.le_of_not_lt large⟩, ⟨items, names, listed, whole ▸ rows, not_not.mp sorted⟩,
            ⟨stated, said, not_not.mp (not_or.mp differs).2⟩⟩
        · cases valid
    · cases valid

/-! ### The order of keys -/

variable {inner : Json}

section Arranged

variable {style : Style}

section

variable (value : Option Json)
include value

@[simp] theorem asText_arranged : asText (value.map (arranged style)) = asText value := by
  cases value with
  | none => rfl
  | some value => cases value <;> rfl

@[simp] theorem asInt_arranged : asInt (value.map (arranged style)) = asInt value := by
  cases value with
  | none => rfl
  | some value => cases value <;> rfl

@[simp] theorem asShape_arranged :
    asShape (value.map (arranged style)) = asShape value := by
  cases value with
  | none => rfl
  | some value =>
    cases value with
    | list items =>
      match items with
      | [] => rfl
      | [one] => cases one <;> rfl
      | [one, two] | one :: two :: three :: rest => cases one <;> cases two <;> rfl
    | _ => rfl

@[simp] theorem isOne_arranged : isOne (value.map (arranged style)) = isOne value := by
  cases value with
  | none => rfl
  | some value => cases value <;> rfl

@[simp] theorem anyObject_arranged :
    (value.map (arranged style)).any isObject = value.any isObject := by
  cases value with
  | none => rfl
  | some value => cases value <;> rfl

end

theorem readDescriptor_arranged {item : Json} (distinct : item.distinct = true) :
    readDescriptor (item.arranged style) = readDescriptor item := by
  unfold readDescriptor
  simp only [get_arranged distinct, asText_arranged, asInt_arranged, asShape_arranged]

theorem checkDescriptors_arranged {payload : Octets} {items : List Json} (distinct : ∀ item ∈ items, item.distinct = true)
    (start : ℕ) : checkDescriptors host payload start (items.map (arranged style))
      = checkDescriptors host payload start items := by
  induction items generalizing start with
  | nil => rfl
  | cons item rest known =>
    obtain ⟨here, later⟩ := forall_mem_cons.mp distinct
    rw [map_cons, checkDescriptors, checkDescriptors, hasKeys_arranged, readDescriptor_arranged here]
    simp only [known later]

section

variable {manifest : Json} (distinct : manifest.distinct = true)
include distinct

variable (payload : Octets)

theorem checkSchema_arranged :
    checkSchema (manifest.arranged style) payload = checkSchema manifest payload := by
  unfold checkSchema
  simp only [get_arranged distinct, hasKeys_arranged, asText_arranged, asInt_arranged, isOne_arranged,
    anyObject_arranged]

theorem signed_arranged :
    signed host (manifest.arranged .compact) payload = signed host manifest payload := by
  unfold signed
  rw [← arranged_without rfl distinct, encode_arranged]

theorem distinct_get {key : String} (found : manifest.get key = some inner) : inner.distinct = true := by
  cases manifest with
  | object entries =>
    obtain ⟨keys, all⟩ := distinct_object.mp distinct
    exact all _ ((get_object keys).mp found)
  | _ => cases found

/-- **The order of the keys of a manifest does not matter.** -/
theorem validateUpdate_arranged :
    validateUpdate host (manifest.arranged .compact) payload = validateUpdate host manifest payload := by
  unfold validateUpdate
  rw [checkSchema_arranged distinct, encode_arranged, get_arranged distinct, get_arranged distinct,
    get_arranged distinct, asText_arranged, asText_arranged]
  unfold digest
  rw [signed_arranged distinct]
  cases listed : manifest.get "tensors" with
  | none => rfl
  | some value =>
    cases value with
    | list items =>
      have each := distinctItems_iff.mp (distinct_get distinct listed)
      rw [map_some, arranged, arrangedItems_map]
      simp only [length_map, checkDescriptors_arranged each]
    | _ => rfl

end

end Arranged

/-! ### Frames on a stream -/

section Frames

variable {manifest : Json} {payload encoded : Octets}

def frameOf (encoded payload : Octets) : Octets :=
  bigEndian 4 encoded.length ++ bigEndian 8 payload.length ++ encoded ++ payload

/-- A frame within the budgets is read in its parts. -/
structure Framed (host : Host) (manifest : Json) (encoded payload : Octets) : Prop where
  text : 0 < encoded.length ∧ encoded.length ≤ maxManifestBytes
  bytes : 0 < payload.length ∧ payload.length ≤ maxTensorBytes
  loaded : jsonLoads host encoded = some manifest
  valid : validateUpdate host manifest payload = .ok ()

theorem frame_header (framed : Framed host manifest encoded payload) :
    fromBigEndian (((bigEndian 4 encoded.length ++ bigEndian 8 payload.length)).take 4) = encoded.length ∧
      fromBigEndian (((bigEndian 4 encoded.length ++ bigEndian 8 payload.length)).drop 4) = payload.length := by
  rw [take_left' (bigEndian_length 4 _), drop_left' (bigEndian_length 4 _)]
  exact ⟨fromBigEndian_bigEndian (Nat.lt_of_le_of_lt framed.text.2 (by decide)),
    fromBigEndian_bigEndian (Nat.lt_of_le_of_lt framed.bytes.2 (by decide))⟩

/-- **A frame is received**, however the stream is cut. -/
theorem receive_frame (framed : Framed host manifest encoded payload) (rest : Octets) (cuts : List ℕ) :
    ∃ after, receiveUpdate host ⟨frameOf encoded payload ++ rest, cuts⟩ = .ok ((manifest, payload), after) ∧
      after.bytes = rest := by
  have length : (bigEndian 4 encoded.length ++ bigEndian 8 payload.length).length = 12 := by simp
  have parts : frameOf encoded payload ++ rest
      = (bigEndian 4 encoded.length ++ bigEndian 8 payload.length) ++ (encoded ++ (payload ++ rest)) := by
    unfold frameOf
    simp only [append_assoc]
  obtain ⟨metadataSize, payloadSize⟩ := frame_header framed
  rw [parts]
  generalize bigEndian 4 encoded.length ++ bigEndian 8 payload.length = header at *
  obtain ⟨first, read, left⟩ := readExact_some 12
    ⟨header ++ (encoded ++ (payload ++ rest)), cuts⟩ (by simp [length])
  rw [take_left' length] at read
  rw [drop_left' length] at left
  obtain ⟨second, read', left'⟩ := readExact_some encoded.length first (by simp [left])
  rw [left, take_left] at read'
  rw [left, drop_left] at left'
  obtain ⟨third, read'', left''⟩ := readExact_some payload.length second (by simp [left'])
  rw [left', take_left] at read''
  rw [left', drop_left] at left''
  refine ⟨third, ?_, left''⟩
  unfold receiveUpdate receiveExact
  rw [read]
  dsimp only [bind, Except.bind]
  rw [metadataSize, payloadSize, if_neg (not_or.mpr ⟨not_not.mpr framed.text, not_not.mpr framed.bytes⟩), read']
  dsimp only
  rw [framed.loaded]
  rw [read'']
  dsimp only
  rw [framed.valid]
  rfl

theorem prefix_parts {first second early : Octets} (begins : early <+: first ++ second)
    (long : first.length ≤ early.length) : ∃ more, early = first ++ more ∧ more <+: second := by
  obtain ⟨more, rfl⟩ := prefix_of_prefix_length_le (prefix_append first second) begins long
  exact ⟨more, rfl, (prefix_append_right_inj first).mp begins⟩

/-- **A stream that ends within a frame is refused.** -/
theorem receive_early (framed : Framed host manifest encoded payload) {early : Octets}
    (begins : early <+: frameOf encoded payload) (short : early ≠ frameOf encoded payload) (cuts : List ℕ) :
    ∃ error, receiveUpdate host ⟨early, cuts⟩ = .error error := by
  have length : (bigEndian 4 encoded.length ++ bigEndian 8 payload.length).length = 12 := by simp
  obtain ⟨metadataSize, payloadSize⟩ := frame_header framed
  have parts : frameOf encoded payload
      = (bigEndian 4 encoded.length ++ bigEndian 8 payload.length) ++ (encoded ++ payload) := by
    unfold frameOf
    simp only [append_assoc]
  rw [parts] at begins short
  generalize bigEndian 4 encoded.length ++ bigEndian 8 payload.length = header at *
  unfold receiveUpdate receiveExact
  by_cases one : early.length < 12
  · rw [readExact_none 12 ⟨early, cuts⟩ one]
    exact ⟨_, rfl⟩
  obtain ⟨more, rfl, begins'⟩ := prefix_parts begins (by omega)
  obtain ⟨first, read, left⟩ := readExact_some 12 ⟨header ++ more, cuts⟩ (by simp [length])
  rw [take_left' length] at read
  rw [drop_left' length] at left
  rw [read]
  dsimp only [bind, Except.bind]
  rw [metadataSize, payloadSize, if_neg (not_or.mpr ⟨not_not.mpr framed.text, not_not.mpr framed.bytes⟩)]
  by_cases two : more.length < encoded.length
  · rw [readExact_none encoded.length first (left ▸ two)]
    exact ⟨_, rfl⟩
  obtain ⟨last, rfl, begins''⟩ := prefix_parts begins' (Nat.le_of_not_lt two)
  obtain ⟨second, read, left'⟩ := readExact_some encoded.length first (by simp [left])
  rw [left, take_left] at read
  rw [left, drop_left] at left'
  rw [read]
  dsimp only
  rw [framed.loaded]
  have three : last.length < payload.length := by
    refine Nat.lt_of_le_of_ne begins''.length_le fun same => short ?_
    rw [begins''.eq_of_length same]
  rw [readExact_none payload.length second (left' ▸ three)]
  exact ⟨_, rfl⟩

theorem sendUpdate_framed (valid : manifest.Value host.numbers)
    (accepted : validateUpdate host manifest payload = .ok ()) :
    ∃ encoded, sendUpdate host manifest payload = .ok (frameOf encoded payload) ∧
      Framed host (manifest.arranged .compact) encoded payload := by
  obtain ⟨-, schema, ⟨encoded, text, small⟩, -, -⟩ := accepted_of_validate accepted
  have sent : sendUpdate host manifest payload = .ok (frameOf encoded payload) := by
    unfold sendUpdate
    rw [accepted]
    rw [text]
    rfl
  have printable := encode_printable valid text
  have some_ : 0 < encoded.length := by
    obtain ⟨-, rfl⟩ := encode_some.mp text
    cases manifest with
    | object entries =>
      exact Nat.succ_pos _
    | _ => cases schema
  have bytes : 0 < payload.length ∧ payload.length ≤ maxTensorBytes := by
    exact of_decide_eq_true (and_eq_true _ _ ▸ schema).2
  have loaded : jsonLoads host encoded = some (manifest.arranged .compact) := by
    unfold jsonLoads
    rw [host.decode_ascii encoded printable]
    exact decode_encode valid text
  exact ⟨encoded, sent, ⟨some_, small⟩, bytes, loaded, (validateUpdate_arranged valid.2 payload).trans accepted⟩

end Frames

/-! ### What a digest determines -/

/-- The digests of two updates do not collide. -/
def CollisionFree (host : Host) (first second : Json × Octets) : Prop :=
  ∀ one ∈ signed host first.1 first.2, ∀ two ∈ signed host second.1 second.2,
    host.sha256 one = host.sha256 two → one = two

section Digest

variable {manifest : Json} {payload : Octets}

theorem value_without (valid : manifest.Value host.numbers) (key : String) :
    (manifest.without key).Value host.numbers := by
  obtain ⟨readable, distinct⟩ := valid
  cases manifest with
  | object entries =>
    obtain ⟨keys, all⟩ := distinct_object.mp distinct
    have readable := readableEntries_iff.mp readable
    refine ⟨readableEntries_iff.mpr fun entry mem => readable entry (mem_filter.mp mem).1, ?_⟩
    exact distinct_object.mpr ⟨keys.sublist (filter_sublist.map Prod.fst),
      fun entry mem => all entry (mem_filter.mp mem).1⟩
  | _ => exact ⟨readable, distinct⟩

theorem asText_some {value : Option Json} {found : Text} (same : asText value = some found) :
    value = some (.str found) := by
  cases value with
  | none => cases same
  | some value => cases value with
    | str text => exact congrArg (some ∘ str) (some.inj same)
    | _ => cases same

theorem parts_unique {first first' second second' : Octets} (free : 0 ∉ first) (free' : 0 ∉ first')
    (same : first ++ 0 :: second = first' ++ 0 :: second') : first = first' ∧ second = second' := by
  induction first generalizing first' with
  | nil =>
    cases first' with
    | nil => exact ⟨rfl, (cons.inj same).2⟩
    | cons code rest =>
      obtain ⟨rfl, -⟩ := cons.inj same
      exact absurd mem_cons_self free'
  | cons code rest known =>
    cases first' with
    | nil =>
      obtain ⟨rfl, -⟩ := cons.inj same
      exact absurd mem_cons_self free
    | cons code' rest' =>
      obtain ⟨rfl, behind⟩ := cons.inj same
      obtain ⟨rfl, equal⟩ := known (not_mem_of_not_mem_cons free) (not_mem_of_not_mem_cons free') behind
      exact ⟨rfl, equal⟩

/-- **A digest determines the manifest and the payload.** -/
theorem digest_determines {manifest' : Json} {payload' : Octets}
    (collisionFree : CollisionFree host (manifest, payload) (manifest', payload'))
    (valid : manifest.Value host.numbers) (valid' : manifest'.Value host.numbers)
    (accepted : Accepted host manifest payload) (accepted' : Accepted host manifest' payload')
    (same : manifest.get "digest" = manifest'.get "digest") : manifest.Same manifest' ∧ payload = payload' := by
  obtain ⟨stated, said, found⟩ := accepted.stated
  obtain ⟨stated', said', found'⟩ := accepted'.stated
  have equal : stated' = stated := by
    rw [same, said'] at said
    exact some.inj said
  subst equal
  obtain ⟨bytes, covered, hashed⟩ := map_eq_some_iff.mp found
  obtain ⟨bytes', covered', hashed'⟩ := map_eq_some_iff.mp found'
  obtain ⟨encoded, text, rfl⟩ := map_eq_some_iff.mp covered
  obtain ⟨encoded', text', rfl⟩ := map_eq_some_iff.mp covered'
  have unsigned := value_without valid "digest"
  have unsigned' := value_without valid' "digest"
  have printable : 0 ∉ encoded := fun mem => absurd (encode_printable unsigned text 0 mem).1 (by decide)
  have printable' : 0 ∉ encoded' := fun mem => absurd (encode_printable unsigned' text' 0 mem).1 (by decide)
  obtain ⟨rfl, rfl⟩ := parts_unique printable printable'
    (collisionFree _ covered _ covered' (hashed.trans hashed'.symm))
  refine ⟨?_, rfl⟩
  exact same_of_without valid.2 valid'.2 (asText_some said) (asText_some said')
    (encode_injective unsigned unsigned' text text')

end Digest

/-! ### Packing and unpacking -/

section Packing

/-- The texts of the metadata are texts of JSON. -/
structure Metadata.Value (numbers : Numbers) (metadata : Metadata) : Prop where
  version : metadata.version.Value numbers
  lineage : metadata.lineage.Value numbers
  adapterId : metadata.adapterId.Value numbers
  peft : metadata.peft.Value numbers
  baseIdentity : metadata.baseIdentity.Value numbers

theorem itemSize_plain {dtype : Text} (supported : itemSize dtype ≠ none) : Plain dtype := by
  unfold itemSize at supported
  split_ifs at supported with half brain single
  · rw [half]
    decide
  · rw [brain]
    decide
  · rw [single]
    decide
  · exact absurd rfl supported

variable {tensor : Tensor}

theorem descriptorOf_value {name : Text} (plain : Plain name) (supported : itemSize tensor.dtype ≠ none)
    (offset : ℕ) :
    (descriptorOf host name tensor offset).Value host.numbers := by
  refine value_object (by simp) ?_
  simp only [forall_mem_cons]
  refine ⟨⟨by decide, value_str plain⟩, ⟨by decide, value_list ?_⟩, ⟨by decide, value_str (itemSize_plain supported)⟩,
    ⟨by decide, value_int _⟩, ⟨by decide, value_int _⟩, ⟨by decide, value_str (host.sha256_plain _)⟩,
    nofun⟩
  exact forall_mem_map.mpr fun size _ => value_int size

theorem readDescriptor_descriptorOf {name : Text} {rows columns : ℕ}
    (shape : tensor.shape = [rows, columns]) (offset : ℕ) :
    readDescriptor (descriptorOf host name tensor offset)
      = some ⟨name, rows, columns, tensor.dtype, offset, tensor.bytes.length, host.sha256 tensor.bytes⟩ := by
  unfold descriptorOf readDescriptor
  rw [shape]
  simp [asText, asInt, asShape]

theorem frombuffer_bytes : frombuffer tensor.dtype tensor.shape tensor.bytes = some tensor :=
  dif_pos tensor.size

/-- **What is described is unpacked.** -/
theorem unpackItems_describe {items : List (Text × Tensor)} (plain : ∀ item ∈ items, Plain item.1) {offset : ℕ}
    {descriptors : List Json} {payload whole : Octets}
    (found : describe host offset items = .ok (descriptors, payload)) (behind : whole.drop offset = payload)
    (table : OrderedTable Text Tensor) :
    (∀ descriptor ∈ descriptors, descriptor.Value host.numbers) ∧
      unpackItems host whole (descriptors.map (arranged .compact)) table
        = .ok (items.foldl (fun table item => table.push item.1 item.2) table) := by
  induction items generalizing offset descriptors payload table with
  | nil =>
    cases found
    exact ⟨fun _ mem => (by cases mem), rfl⟩
  | cons item rest known =>
    obtain ⟨name, tensor⟩ := item
    obtain ⟨here, later⟩ := forall_mem_cons.mp plain
    rw [describe] at found
    split_ifs at found with refused
    obtain ⟨supported, matrix, finite⟩ := not_or.mp refused |>.imp_right not_or.mp
    cases ran : describe host (offset + tensor.bytes.length) rest with
    | error error =>
      rw [ran] at found
      cases found
    | ok read =>
      obtain ⟨others, bytes⟩ := read
      rw [ran] at found
      cases found
      have value : (descriptorOf host name tensor offset).Value host.numbers := descriptorOf_value here supported offset
      have next : whole.drop (offset + tensor.bytes.length) = bytes := by
        rw [← drop_drop, behind, drop_left]
      obtain ⟨values, unpacked⟩ := known later ran next (table.push name tensor)
      refine ⟨List.forall_mem_cons.mpr ⟨value, values⟩, ?_⟩
      obtain ⟨rows, columns, shape⟩ := length_eq_two.mp (not_not.mp matrix)
      have slice : (whole.drop offset).take tensor.bytes.length = tensor.bytes := by
        rw [behind, take_left]
      rw [map_cons, unpackItems, readDescriptor_arranged value.2, readDescriptor_descriptorOf shape]
      dsimp only
      rw [Int.toNat_natCast, Int.toNat_natCast, Int.toNat_natCast, Int.toNat_natCast, slice, ← shape,
        frombuffer_bytes]
      dsimp only
      rw [if_neg finite, unpacked]
      rfl

theorem value_setKey {value : Json} {key : String} (valid : value.Value host.numbers)
    (plain : Plain (text key)) (inner_ : inner.Value host.numbers) :
    (setKey value key inner).Value host.numbers := by
  cases value with
  | object entries => exact value_putEntry valid plain inner_
  | _ => exact valid

theorem get_setKey {value : Json} {key other : String} (differs : key ≠ other) :
    (setKey value key inner).get other = value.get other := by
  cases value with
  | object entries => exact get_putEntry differs inner
  | _ => rfl

variable {tensors : OrderedTable Text Tensor}

section

variable {metadata : Metadata} {manifest : Json} {payload : Octets}
  (plain : ∀ item ∈ tensors.items, Plain item.1) (valid : metadata.Value host.numbers)
  (packed : packUpdate host tensors metadata = .ok (manifest, payload))
include plain valid packed

/-- What is packed: a valid update with the descriptors and the bytes of the sorted tensors. -/
theorem packUpdate_update : manifest.Value host.numbers ∧ validateUpdate host manifest payload = .ok () ∧
      ∃ descriptors, manifest.get "tensors" = some (.list (descriptors.map (arranged .compact))) ∧
        describe host 0 (tensors.items.insertionSort fun first second => first.1 ≤ second.1)
          = .ok (descriptors, payload) := by
  have same := perm_insertionSort (fun first second : Text × Tensor => first.1 ≤ second.1) tensors.items
  unfold packUpdate at packed
  split_ifs at packed
  split at packed
  · cases packed
  · rename_i descriptors bytes described
    obtain ⟨values, -⟩ := unpackItems_describe (fun item mem => plain item (same.mem_iff.mp mem))
      described drop_zero ∅
    have value : (manifestOf host metadata descriptors bytes).Value host.numbers := by
      refine value_object (by simp) ?_
      simp only [forall_mem_cons]
      exact ⟨⟨by decide, value_int 1⟩, ⟨by decide, valid.version⟩, ⟨by decide, valid.lineage⟩,
        ⟨by decide, valid.adapterId⟩, ⟨by decide, valid.peft⟩, ⟨by decide, valid.baseIdentity⟩,
        ⟨by decide, value_list values⟩, ⟨by decide, value_str (host.sha256_plain _)⟩, nofun⟩
    have listed : (manifestOf host metadata descriptors bytes).get "tensors" = some (.list descriptors) := by
      simp [manifestOf]
    cases text : encode host.numbers (manifestOf host metadata descriptors bytes) with
    | none =>
      rw [text] at packed
      cases packed
    | some encoded =>
      have loaded : jsonLoads host encoded = some ((manifestOf host metadata descriptors bytes).arranged .compact) := by
        unfold jsonLoads
        rw [host.decode_ascii encoded (encode_printable value text)]
        exact decode_encode value text
      rw [text, bind_some, loaded] at packed
      dsimp only at packed
      split at packed
      · cases packed
      · rename_i found digested
        obtain ⟨covered, -, rfl⟩ := map_eq_some_iff.mp digested
        cases validated : validateUpdate host (setKey ((manifestOf host metadata descriptors bytes).arranged .compact)
          "digest" (.str (host.sha256 covered))) bytes with
        | error error =>
          rw [validated] at packed
          cases packed
        | ok _ =>
          rw [validated] at packed
          cases packed
          refine ⟨value_setKey (value_arranged .compact value) (by decide) (value_str (host.sha256_plain _)),
            validated, descriptors, ?_, described⟩
          rw [get_setKey (by decide), get_arranged value.2, listed, map_some, arranged,
            arrangedItems_map]

/-- **What is packed is unpacked.** -/
theorem unpack_pack :
    ∃ unpacked, unpackUpdate host manifest payload = .ok unpacked ∧ ∀ name, unpacked.get? name = tensors.get? name := by
  have same := perm_insertionSort (fun first second : Text × Tensor => first.1 ≤ second.1) tensors.items
  have distinct := (same.map Prod.fst).nodup_iff.mpr tensors.distinct
  obtain ⟨-, validated, descriptors, listed, described⟩ := packUpdate_update plain valid packed
  obtain ⟨-, unpacked⟩ := unpackItems_describe (fun item mem => plain item (same.mem_iff.mp mem))
    described drop_zero ∅
  unfold unpackUpdate
  rw [validated, listed]
  refine ⟨_, unpacked, fun name => ?_⟩
  rw [OrderedTable.get?_pushAll distinct]
  exact or_none.trans (OrderedTable.get?_perm same name)

end

end Packing

/-! ### The transport -/

/-- The tensors of a manifest have increasing names and take the rows of the payload, one after the other. -/
def TilesPayload (manifest : Json) (payload : Octets) : Prop :=
  ∃ (items : List Json) (rows : List Descriptor), manifest.get "tensors" = some (.list items) ∧ items.map readDescriptor = rows.map some ∧
    (rows.map Descriptor.name).Pairwise (· < ·) ∧ (∀ row ∈ rows, 0 < row.nbytes) ∧
      Span.Consecutive 0 payload.length (rows.map Descriptor.span) ∧
        Span.Tiles 0 payload.length (rows.map Descriptor.span)

theorem tiles_of_validate {manifest : Json}
    (valid : validateUpdate host manifest payload = .ok ()) : TilesPayload manifest payload := by
  obtain ⟨-, -, -, ⟨items, names, listed, checked, sorted⟩, -⟩ := accepted_of_validate valid
  obtain ⟨rows, read, named, consecutive, some_⟩ := checkDescriptors_rows checked
  exact ⟨items, rows, listed, read, named ▸ sorted_strictly sorted, some_, consecutive, consecutive.tiles⟩

/-- **The transport of an adapter**: what is packed is unpacked, what is sent is received however the stream is
cut, an end that comes too early is refused, the tensors tile the payload, and a digest determines the update. -/
theorem lora_transport (host : Host) :
    (∀ (tensors : OrderedTable Text Tensor) (metadata : Metadata) (manifest : Json) (payload : Octets),
      (∀ item ∈ tensors.items, Plain item.1) → metadata.Value host.numbers →
      packUpdate host tensors metadata = .ok (manifest, payload) →
        ∃ unpacked, unpackUpdate host manifest payload = .ok unpacked ∧
          ∀ name, unpacked.get? name = tensors.get? name) ∧
    (∀ (manifest : Json) (payload : Octets), manifest.Value host.numbers →
      validateUpdate host manifest payload = .ok () →
        ∃ frame, sendUpdate host manifest payload = .ok frame ∧
          (∀ rest cuts, ∃ received after, receiveUpdate host ⟨frame ++ rest, cuts⟩ = .ok ((received, payload), after) ∧
            received.Same manifest ∧ after.bytes = rest) ∧
          ∀ early cuts, early <+: frame → early ≠ frame →
            ∃ error, receiveUpdate host ⟨early, cuts⟩ = .error error) ∧
    (∀ (manifest : Json) (payload : Octets), validateUpdate host manifest payload = .ok () →
      TilesPayload manifest payload) ∧
    ∀ first second : Json × Octets, CollisionFree host first second →
      first.1.Value host.numbers → second.1.Value host.numbers →
      validateUpdate host first.1 first.2 = .ok () → validateUpdate host second.1 second.2 = .ok () →
      first.1.get "digest" = second.1.get "digest" →
        dumps .compact first.1 = dumps .compact second.1 ∧ first.2 = second.2 := by
  refine ⟨fun tensors metadata manifest payload => unpack_pack,
    fun manifest payload valid accepted => ?_, fun manifest payload => tiles_of_validate,
    fun first second collisionFree valid valid' accepted accepted' same => ?_⟩
  · obtain ⟨encoded, sent, framed⟩ := sendUpdate_framed valid accepted
    refine ⟨_, sent, fun rest cuts => ?_, fun early cuts begins short => receive_early framed begins short cuts⟩
    obtain ⟨after, received, left⟩ := receive_frame framed rest cuts
    exact ⟨_, after, received, arranged_arranged .compact manifest, left⟩
  · obtain ⟨same, payload⟩ := digest_determines collisionFree valid valid' (accepted_of_validate accepted)
      (accepted_of_validate accepted') same
    exact ⟨same.text, payload⟩

/-! ### One adapter -/

/-- The digests of the bytes of one tensor, and of its update. -/
def adapterSha (bytes : Octets) : Text :=
  if bytes = [0, 60, 0, 60] then text "42a2794dcc8eb49ad6946d3887e26f4969438ebc4fb35ed55efb44e5908f494e"
  else text "3e54ad58c5b1f00a9d9f4905e85245fc99893246c23df7d08a536ce0f9c49a18"

def adapterHost : Host where
  littleEndian := true
  numbers := Numbers.decimal 4300 true
  sha256 := adapterSha
  finite _ _ := true
  decode := some
  sha256_plain bytes := by
    unfold adapterSha
    split_ifs <;> decide
  decode_ascii _ _ := rfl

def adapterTensor : Tensor where
  dtype := text "float16"
  shape := [1, 2]
  bytes := [0, 60, 0, 60]
  size width found := by
    have same : itemSize (text "float16") = some 2 := by decide
    rw [same] at found
    cases found
    rfl

def adapterTensors : OrderedTable Text Tensor := ⟨[(text "layer.lora_A.weight", adapterTensor)], by simp⟩

def adapterMetadata : Metadata := ⟨.int 0, .str (text "run"), .int 1, .object [], .object []⟩

theorem adapter_transported : ∃ manifest payload frame,
    packUpdate adapterHost adapterTensors adapterMetadata = .ok (manifest, payload) ∧
      sendUpdate adapterHost manifest payload = .ok frame ∧ TilesPayload manifest payload ∧
        (∃ unpacked, unpackUpdate adapterHost manifest payload = .ok unpacked ∧
          unpacked.get? (text "layer.lora_A.weight") = some adapterTensor) ∧
        (∃ received after, receiveUpdate adapterHost ⟨frame ++ [7], [0, 10, 3]⟩ = .ok ((received, payload), after) ∧
          received.Same manifest ∧ after.bytes = [7]) ∧
        (∃ error, receiveUpdate adapterHost ⟨[], []⟩ = .error error) ∧
        dumps .compact manifest = dumps .compact (manifest.arranged .compact) := by
  have accepted : (packUpdate adapterHost adapterTensors adapterMetadata).isOk = true := by decide +kernel
  cases packed : packUpdate adapterHost adapterTensors adapterMetadata with
  | error error =>
    rw [packed] at accepted
    cases accepted
  | ok update =>
    obtain ⟨manifest, payload⟩ := update
    have plain : ∀ item ∈ adapterTensors.items, Plain item.1 :=
      forall_mem_singleton.mpr (show Plain (text "layer.lora_A.weight") by decide)
    have nothing : (Json.object []).Value adapterHost.numbers := ⟨trivial, rfl⟩
    have metadata : adapterMetadata.Value adapterHost.numbers :=
      ⟨value_int 0, value_str (by decide), value_int 1, nothing, nothing⟩
    obtain ⟨valid, validated, -⟩ := packUpdate_update plain metadata packed
    obtain ⟨unpacks, sends, tiles, determines⟩ := lora_transport adapterHost
    obtain ⟨unpacked, ran, same⟩ := unpacks adapterTensors adapterMetadata manifest payload plain metadata packed
    obtain ⟨frame, sent, received, early⟩ := sends manifest payload valid validated
    -- The same update with its keys in another order has the same digest.
    have collisionFree : CollisionFree adapterHost (manifest, payload) (manifest.arranged .compact, payload) := by
      intro one here two there _
      exact Option.mem_unique here ((signed_arranged valid.2 payload).symm.trans there)
    obtain ⟨stated, said, -⟩ := (accepted_of_validate validated).stated
    have digests : manifest.get "digest" = (manifest.arranged .compact).get "digest" := by
      rw [get_arranged valid.2, asText_some said]
      rfl
    have text := (determines (manifest, payload) (manifest.arranged .compact, payload) collisionFree valid
      (value_arranged .compact valid) validated ((validateUpdate_arranged valid.2 payload).trans validated)
      digests).1
    refine ⟨manifest, payload, frame, rfl, sent, tiles manifest payload validated, ⟨unpacked, ran, ?_⟩,
      received [7] [0, 10, 3], early [] [] nil_prefix ?_, text⟩
    · rw [same]
      rfl
    · obtain ⟨encoded, framed, -⟩ := sendUpdate_framed valid validated
      cases sent.symm.trans framed
      intro nothing
      have lengths := congrArg length nothing
      simp only [frameOf, length_append, bigEndian_length, length_nil] at lengths
      omega

end TinyDSV41.Serving
