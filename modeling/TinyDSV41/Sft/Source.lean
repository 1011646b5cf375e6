/-
**Reading the rank snapshots of a training run as whole tensors.**

A rank owns some rows of a tensor, all of them or those from an offset on, and has these rows, a copy of
them, or its shard of them. The source computes the range of every piece, checks that the pieces cover
the tensor, and copies them, or yields their rows, chunk by chunk. Checks of the files, of element types
and devices are left out.

* `owner`, `slice` — the range of a piece.
* `cover` — the check of all pieces of a tensor.
* `copyTensor`, `iterSparse`, `iterFull` — the whole tensor, and its rows by index.
-/

import TinyDSV41.Lib.Rows
import TinyDSV41.Lib.Spans

namespace TinyDSV41.Sft

open Lib

/-! ### Layouts -/

/-- The fields of an ownership record, `none` where there is no integer. -/
structure Ownership where
  expertStart : Option ℤ
  numExperts : Option ℤ
  globalNumExperts : Option ℤ
  rowStart : Option ℤ
  rowStop : Option ℤ
  globalNumEmbeddings : Option ℤ
  embeddingDim : Option ℤ

inductive Placement
  | shard
  | replicate
  | other
deriving DecidableEq

/-- The layout of a tensor at a rank. `malformed` has other fields than a plain or a distributed one. -/
inductive Layout
  | malformed (shape localShape : List ℕ)
  | plain (shape localShape : List ℕ)
  | mesh (shape localShape : List ℕ) (mesh : List ℕ) (meshNames : ℕ) (placements : List Placement)
      (stride : List ℕ)

def Layout.shape : Layout → List ℕ
  | .malformed shape _ => shape
  | .plain shape _ => shape
  | .mesh shape .. => shape

/-- `part in name` -/
def contains (name part : String) : Bool := decide (part.toList <:+: name.toList)

/-- `torch.empty(shape).stride()` -/
def strides : List ℕ → List ℕ
  | [] => []
  | [_] => [1]
  | _ :: size :: rest =>
    match strides (size :: rest) with
    | [] => []
    | stride :: others => (stride * max size 1) :: stride :: others

/-- The first dimension; a scalar counts as one row. -/
def rowsOf (shape : List ℕ) : ℕ := shape.headD 1

/-- `_owner`: the shape of what a rank owns, and where it starts. -/
def owner (name : String) (owner : Ownership) (shape : List ℕ) : Except String (List ℕ × ℤ) :=
  if contains name ".moe.routed." then
    match owner.expertStart, owner.numExperts with
    | some start, some count =>
      if count < 1 then .error s!"invalid SFT expert ownership: {name}"
      else
        match shape with
        | [] => .error "tuple index out of range"
        | rows :: rest =>
          if owner.globalNumExperts ≠ some (rows : ℤ) ∨
              ¬ (0 ≤ start ∧ start < start + count ∧ start + count ≤ rows) then
            .error s!"invalid SFT expert ownership: {name}"
          else .ok (count.toNat :: rest, start)
    | _, _ => .error s!"invalid SFT expert ownership: {name}"
  else if contains name ".engram_tables." then
    match owner.rowStart, owner.rowStop with
    | some start, some stop =>
      if ¬ (0 ≤ start ∧ start ≤ stop) then .error s!"invalid SFT Engram ownership: {name}"
      else
        match shape with
        | [] => .error "tuple index out of range"
        | rows :: rest =>
          if ¬ stop ≤ rows ∨ owner.globalNumEmbeddings ≠ some (rows : ℤ) then
            .error s!"invalid SFT Engram ownership: {name}"
          else
            match rest with
            | [] => .error "tuple index out of range"
            | width :: _ =>
              if owner.embeddingDim ≠ some (width : ℤ) then
                .error s!"invalid SFT Engram ownership: {name}"
              else .ok ((stop - start).toNat :: rest, start)
    | _, _ => .error s!"invalid SFT Engram ownership: {name}"
  else .ok (shape, 0)

def shard (rows members index : ℕ) : ℕ × ℕ :=
  let width := (rows + members - 1) / members
  let start := min rows (index * width)
  (start, min rows (start + width))

/-- `_slice`: the range of the rows that a rank has. -/
def slice (rank world : ℕ) (layout : Layout) (shape : List ℕ) (offset : ℤ) (name : String) :
    Except String (ℤ × ℤ) :=
  if layout.shape ≠ shape then .error s!"SFT owner tensor shape differs: {name}"
  else
    match layout with
    | .malformed .. => .error s!"unsupported SFT tensor layout: {name}"
    | .plain _ localShape =>
      if localShape ≠ shape then .error s!"unsupported SFT tensor layout: {name}"
      else .ok (offset, offset + rowsOf shape)
    | .mesh _ localShape mesh meshNames placements stride =>
      if mesh = [] ∨ (∃ member ∈ mesh, world ≤ member) ∨ ¬ mesh.Nodup ∨ rank ∉ mesh ∨
          (placements ≠ [.shard] ∧ placements ≠ [.replicate]) ∨ meshNames ≠ 1 ∨ shape = [] ∨
          stride ≠ strides shape then
        .error s!"unsupported SFT mesh or placement: {name}"
      else
        let bounds :=
          if placements = [.shard] then shard (rowsOf shape) mesh.length (mesh.idxOf rank)
          else (0, rowsOf shape)
        if localShape ≠ (bounds.2 - bounds.1) :: shape.tail then
          .error s!"SFT local shard shape differs: {name}"
        else .ok (offset + bounds.1, offset + bounds.2)

/-! ### Pieces -/

/-- A tensor by its rows; a scalar is one row. `rowBytes` is the size of a row. -/
structure Value (Row : Type) where
  scalar : Bool
  rowBytes : ℕ
  rows : List Row

/-- The rows of a tensor from one index to another. -/
structure Piece (Row : Type) where
  start : ℤ
  stop : ℤ
  value : Value Row

def Piece.range {Row : Type} (piece : Piece Row) : Span := (piece.start, piece.stop)

variable {Row : Type} (chunkBytes : ℕ) (equal : Row → Row → Bool)

/-- Chunks with the index of their first row, and the one after the last. -/
def indexed {Item : Type} : ℕ → List (List Item) → List (ℕ × ℕ × List Item)
  | _, [] => []
  | start, chunk :: rest =>
    (start, start + chunk.length, chunk) :: indexed (start + chunk.length) rest

/-- `_chunks` -/
def chunks (value : Value Row) : List (ℕ × ℕ × List Row) :=
  if value.scalar then [(0, 1, value.rows)]
  else if value.rows = [] then []
  else
    let rowBytes := max 1 value.rowBytes
    indexed 0 (split (max 1 (chunkBytes / rowBytes)) value.rows)

/-- `torch.equal`, of tensors with equal rows otherwise. -/
def equalRows (left right : List Row) : Bool :=
  decide (left.length = right.length) && (left.zip right).all fun pair => equal pair.1 pair.2

/-- `tensor[start:stop]` -/
def rowsBetween (rows : List Row) (start stop : ℕ) : List Row := (rows.drop start).take (stop - start)

/-- `_equal` -/
def equalValues (left right : Value Row) : Bool :=
  (chunks chunkBytes left).all fun chunk =>
    equalRows equal chunk.2.2
      (if right.scalar then right.rows else rowsBetween right.rows chunk.1 chunk.2.1)

/-- The loop of `_cover`; `last` is the last piece that was kept. -/
def coverFrom (name : String) (total : ℤ) :
    ℤ → Option (Piece Row) → List (Piece Row) → Except String (List (Piece Row))
  | cursor, _, [] =>
    if cursor ≠ total then .error s!"SFT tensor owners do not cover the tensor: {name}" else .ok []
  | cursor, last, piece :: rest =>
    if piece.start = piece.stop then coverFrom name total cursor last rest
    else
      match last.filter fun last => piece.range = last.range with
      | some last =>
        if contains name ".engram_tables." then .error s!"SFT Engram owners overlap: {name}"
        else if equalValues chunkBytes equal piece.value last.value = false then
          .error s!"SFT replicated tensors differ: {name}"
        else coverFrom name total cursor (some last) rest
      | none =>
        if piece.start ≠ cursor then .error s!"SFT tensor owners overlap or leave gaps: {name}"
        else
          match coverFrom name total piece.stop (some piece) rest with
          | .error error => .error error
          | .ok result => .ok (piece :: result)

/-- The pieces in the order of their ranges. -/
def sortPieces (pieces : List (Piece Row)) : List (Piece Row) :=
  pieces.insertionSort fun first second => Span.before first.range second.range

/-- `_cover` -/
def cover (name : String) (shape : List ℕ) (pieces : List (Piece Row)) :
    Except String (List (Piece Row)) :=
  coverFrom chunkBytes equal name (rowsOf shape) 0 none (sortPieces pieces)

/-- `destination[start:stop].copy_(chunk)` -/
def copyRows (destination : List Row) (start : ℕ) (chunk : List Row) : Option (List Row) :=
  if start + chunk.length ≤ destination.length then
    some (destination.take start ++ (chunk ++ destination.drop (start + chunk.length)))
  else none

/-- The chunks of one piece are copied. -/
def copyChunks (destination : List Row) (offset : ℕ) : List (ℕ × ℕ × List Row) → Option (List Row)
  | [] => some destination
  | chunk :: rest =>
    match copyRows destination (offset + chunk.1) chunk.2.2 with
    | none => none
    | some destination => copyChunks destination offset rest

/-- `copy_tensor`, into a destination with the shape of the tensor. -/
def copyTensor (destination : List Row) : List (Piece Row) → Option (List Row)
  | [] => some destination
  | piece :: rest =>
    match copyChunks destination piece.start.toNat (chunks chunkBytes piece.value) with
    | none => none
    | some destination => copyTensor destination rest

/-! ### Rows of Engram tables -/

/-- The sparse rows of an owner: local indices, and the rows under them. -/
structure SparseRows (Row : Type) where
  start : ℤ
  stop : ℤ
  ids : List ℤ
  values : Value Row

/-- The sparse owners in the order of their first rows. -/
def sortOwners (records : List (SparseRows Row)) : List (SparseRows Row) :=
  records.insertionSort fun first second => first.start ≤ second.start

/-- Each sparse owner starts where the one before it stops. -/
def coverSparse (name : String) (total : ℤ) : ℤ → List (SparseRows Row) → Except String Unit
  | cursor, [] =>
    if cursor ≠ total then .error s!"SFT Engram owners do not cover the table: {name}" else .ok ()
  | cursor, record :: rest =>
    if record.start ≠ cursor then .error s!"SFT Engram owners overlap or leave gaps: {name}"
    else coverSparse name total record.stop rest

/-- `iter_engram_rows` of sparse owners. -/
def iterSparse (records : List (SparseRows Row)) : List (List ℤ × List Row) :=
  (sortOwners records).flatMap fun record =>
    (chunks chunkBytes record.values).map fun chunk =>
      ((rowsBetween record.ids chunk.1 chunk.2.1).map (· + record.start), chunk.2.2)

/-- `iter_engram_rows` of a whole table. -/
def iterFull (pieces : List (Piece Row)) : List (List ℤ × List Row) :=
  pieces.flatMap fun piece =>
    (chunks chunkBytes piece.value).map fun chunk =>
      ((arange (chunk.2.1 - chunk.1)).map (· + (piece.start + chunk.1)), chunk.2.2)

end TinyDSV41.Sft
