/-
**Sealed groups as artifacts.**

The CPU seals its output: each group gets a seal with the inventory of all other files. The exporter packs
the inventory and the original seal into an archive, and the importer unpacks an archive into a temporary
directory, checks that it is a seal and its inventory, writes an import receipt and renames the directory
to the destination.

* `writeSeals`, `publishSealed` — what the exporter packs.
* `receiveSealed` — the file operations and the answer of an import.

An archive is the list of its members. A directory is the table of its regular files; a run never reads
the temporary directory of another one, so torn files in it are left out. The bytes of files, their
digests and the texts of seals are parameters.
-/

import TinyDSV41.Lib.PosixPath
import TinyDSV41.Artifacts.Queue
import Mathlib.Data.List.Sort
import Mathlib.Data.List.Lex
import Mathlib.Data.Char

namespace TinyDSV41.Sealed

open List Lib

/-! ### Seals -/

/-- `MAX_FILES` -/
def maxFiles : ℕ := 20000

/-- What `file_sha256` finds of a file. -/
structure Row (Digest : Type) where
  bytes : ℕ
  sha256 : Digest
deriving DecidableEq

abbrev Inventory (Digest : Type) := OrderedTable Name (Row Digest)

/-- A seal: the fields that are read, and the text of the others. -/
structure Seal (Digest : Type) where
  kind : String
  groupId : ℤ
  coordinatorClosed : Bool
  cpuSpoolTerminal : Bool
  inventory : Inventory Digest
  inventorySha256 : Digest
  rest : String

/-- Bytes of files: their number and their digest, the digest of an inventory, and seals as files. What is
read of a written seal, if it can be read, is that seal. -/
structure Formats (Blob Digest : Type) where
  size : Blob → ℕ
  content : Blob → Digest
  evidence : Inventory Digest → Digest
  write : Seal Digest → Blob
  read : Blob → Option (Seal Digest)
  read_write : ∀ original found, read (write original) = some found → found = original

/-- A group as `write_seals` is told of it. -/
structure Group where
  groupId : ℤ
  rest : String

structure Closure where
  coordinatorClosed : Bool
  cpuSpoolTerminal : Bool

/-- A directory with regular files and directories only. -/
structure Tree (Blob : Type) where
  files : OrderedTable Path Blob
  proper : ∀ item ∈ files.items, item.1 ≠ [] ∧ ∀ name ∈ item.1, isComponent name = true
  apart : ∀ one ∈ files.items, ∀ two ∈ files.items, one.1 <+: two.1 → one.1 = two.1

/-- The digits of `%d`. -/
def digits : ℤ → Name
  | .ofNat value => Nat.toDigits 10 value
  | .negSucc value => '-' :: Nat.toDigits 10 (value + 1)

def sealPrefix : Name := ['g', 'r', 'o', 'u', 'p', '-']

def sealSuffix : Name := ['.', 's', 'e', 'a', 'l', '.', 'j', 's', 'o', 'n']

/-- `group-%d.seal.json` -/
def sealName (groupId : ℤ) : Name := sealPrefix ++ digits groupId ++ sealSuffix

/-- The name of the file ends in `.seal.json`. -/
def isSeal (path : Path) : Bool := path.getLast?.any fun name => decide (sealSuffix <:+ name)

variable {Blob Digest Manifest : Type} [DecidableEq Digest] [DecidableEq Manifest]
  (formats : Formats Blob Digest)

/-- `file_sha256` -/
def fileSha256 (blob : Blob) : Row Digest := ⟨formats.size blob, formats.content blob⟩

/-- The rows of all files that are no seals. -/
def inventoryOf (files : List (Path × Blob)) : Inventory Digest :=
  files.foldl (fun inventory file =>
    if isSeal file.1 then inventory
    else inventory.push (posix file.1) (fileSha256 formats file.2)) ∅

/-- `sealed_inventory` -/
def sealedInventory (tree : Tree Blob) : Except String (Inventory Digest) :=
  let inventory := inventoryOf formats tree.files.items
  if inventory.length = 0 ∨ 20000 < inventory.length ∨
      4 * 1024 ^ 3 < inventory.total fun row => row.bytes then
    .error "sealed evidence exceeds explicit importer capacity"
  else .ok inventory

def sealOf (closure : Closure) (inventory : Inventory Digest) (group : Group) : Seal Digest where
  kind := "terminalbench-sealed-group"
  groupId := group.groupId
  coordinatorClosed := closure.coordinatorClosed
  cpuSpoolTerminal := closure.cpuSpoolTerminal
  inventory := inventory
  inventorySha256 := formats.evidence inventory
  rest := group.rest

theorem digits_component (value : ℤ) : ∀ letter ∈ digits value, letter ≠ '/' := by
  intro letter mem same
  subst same
  have digit : ∀ value, '/' ∉ Nat.toDigits 10 value := by
    intro value mem
    have := Nat.isDigit_of_mem_toDigits (by decide) (by decide) mem
    revert this
    decide
  cases value with
  | ofNat value => exact digit value mem
  | negSucc value =>
    rcases mem_cons.mp mem with minus | mem
    · revert minus
      decide
    · exact digit _ mem

theorem sealName_component (groupId : ℤ) : isComponent (sealName groupId) = true := by
  refine isComponent_iff.mpr ⟨?_, ?_, ?_, ?_⟩
  · exact cons_ne_nil _ _
  · unfold sealName
    rw [mem_append, mem_append]
    rintro ((slash | slash) | slash)
    · revert slash
      decide
    · exact digits_component groupId _ slash rfl
    · revert slash
      decide
  all_goals exact fun same => by cases congrArg head? same

/-- A new file at the top of a directory. -/
def Tree.add (tree : Tree Blob) (name : Name) (blob : Blob) (component : isComponent name = true)
    (free : ∀ item ∈ tree.files.items, item.1.head? ≠ some name) : Tree Blob where
  files := tree.files.push [name] blob
  proper := by
    intro item member
    rcases mem_append.mp member with before | here
    · exact tree.proper item (mem_of_mem_filter before)
    · rw [mem_singleton.mp here]
      refine ⟨List.cons_ne_nil _ _, fun other found => ?_⟩
      rw [mem_singleton.mp found]
      exact component
  apart := by
    have other : ∀ item ∈ tree.files.items, ¬ [name] <+: item.1 ∧ ¬ item.1 <+: [name] := by
      intro item member
      have filled := (tree.proper item member).1
      obtain ⟨first, rest, same⟩ := exists_cons_of_ne_nil filled
      have differs := free item member
      rw [same, head?_cons] at differs
      rw [same, cons_prefix_cons, cons_prefix_cons]
      exact ⟨fun both => differs (by rw [both.1]), fun both => differs (by rw [both.1])⟩
    intro one first two second below
    rcases mem_append.mp first with one_before | one_here
    · rcases mem_append.mp second with two_before | two_here
      · exact tree.apart one (mem_of_mem_filter one_before) two (mem_of_mem_filter two_before) below
      · rw [mem_singleton.mp two_here] at below
        exact absurd below (other one (mem_of_mem_filter one_before)).2
    · rcases mem_append.mp second with two_before | two_here
      · rw [mem_singleton.mp one_here] at below
        exact absurd below (other two (mem_of_mem_filter two_before)).1
      · rw [mem_singleton.mp one_here, mem_singleton.mp two_here]

/-- `write_new` of a seal. -/
def writeSeal (closure : Closure) (inventory : Inventory Digest) (tree : Tree Blob) (group : Group) :
    Except String (Tree Blob) :=
  if free : ∀ item ∈ tree.files.items, item.1.head? ≠ some (sealName group.groupId) then
    .ok (tree.add (sealName group.groupId) (formats.write (sealOf formats closure inventory group))
      (sealName_component _) free)
  else .error "File exists"

def addSeals (closure : Closure) (inventory : Inventory Digest) (tree : Tree Blob) :
    List Group → Except String (Tree Blob)
  | [] => .ok tree
  | group :: rest =>
    match writeSeal formats closure inventory tree group with
    | .error error => .error error
    | .ok later => addSeals closure inventory later rest

/-- `write_seals` -/
def writeSeals (tree : Tree Blob) (groups : List Group) (closure : Closure) : Except String (Tree Blob) :=
  if closure.coordinatorClosed = false ∨ closure.cpuSpoolTerminal = false then
    .error "cannot seal unresolved CPU work"
  else match sealedInventory formats tree with
    | .error error => .error error
    | .ok inventory => addSeals formats closure inventory tree groups

/-! ### The exporter -/

structure Entry (Blob : Type) where
  name : Name
  regular : Bool
  content : Blob

/-- The order in which the members are packed. -/
def byName (first second : Name × Row Digest) : Prop := first.1 ≤ second.1

instance (first second : Name × Row Digest) : Decidable (byName first second) :=
  inferInstanceAs (Decidable (first.1 ≤ second.1))

def packMember (tree : Tree Blob) (member : Name × Row Digest) : Except String (Entry Blob) :=
  if isCanonical member.1 = false then .error "unsafe sealed member path"
  else match tree.files.get? (parts member.1) with
    | none => .error "artifact must be a same-owner regular file or directory"
    | some blob =>
      if fileSha256 formats blob ≠ member.2 then .error "sealed original member changed"
      else .ok ⟨member.1, true, blob⟩

def packMembers (tree : Tree Blob) : List (Name × Row Digest) → Except String (List (Entry Blob))
  | [] => .ok []
  | member :: rest =>
    match packMember formats tree member with
    | .error error => .error error
    | .ok entry =>
      match packMembers tree rest with
      | .error error => .error error
      | .ok entries => .ok (entry :: entries)

/-- The archive that `publish_sealed` publishes. -/
def publishSealed (tree : Tree Blob) (groupId : ℤ) : Except String (List (Entry Blob)) :=
  if groupId < 0 then .error "nonnegative sealed group id is required"
  else match tree.files.get? [sealName groupId] with
    | none => .error "No such file or directory"
    | some blob =>
      match formats.read blob with
      | none => .error "Expected a JSON object"
      | some original =>
        if original.kind ≠ "terminalbench-sealed-group" ∨ original.groupId ≠ groupId ∨
            original.coordinatorClosed = false ∨ original.cpuSpoolTerminal = false then
          .error "only original CPU-closed groups may be transported"
        else
          let members := original.inventory.push (sealName groupId) (fileSha256 formats blob)
          if ¬ (1 ≤ members.length ∧ members.length ≤ maxFiles) ∨
              Artifacts.maxBytes < members.total fun row => row.bytes then
            .error "sealed evidence exceeds automatic artifact bound"
          else packMembers formats tree (members.items.insertionSort byName)

/-! ### The importer -/

/-- `<output>.artifact-import.json` -/
structure ImportReceipt (Manifest Digest : Type) where
  schemaVersion : ℤ
  artifact : Manifest
  sealFile : Name
  sealSha256 : Digest
deriving DecidableEq

/-- The files of an import: its temporary directories, its receipt and its destination. -/
structure Place (Blob Digest Manifest : Type) where
  temporaries : List (OrderedTable Path Blob)
  receipt : Option (File (ImportReceipt Manifest Digest))
  output : Option (OrderedTable Path Blob)

inductive Op (Blob Digest Manifest : Type)
  | makeTemporary
  | writeFile (path : Path) (blob : Blob)
  | removeTemporary
  | createReceipt
  | writeReceipt (receipt : ImportReceipt Manifest Digest)
  | rename

def Place.apply (place : Place Blob Digest Manifest) : Op Blob Digest Manifest →
    Place Blob Digest Manifest
  | .makeTemporary => { place with temporaries := ∅ :: place.temporaries }
  | .writeFile path blob =>
    match place.temporaries with
    | [] => place
    | newest :: rest => { place with temporaries := newest.push path blob :: rest }
  | .removeTemporary => { place with temporaries := place.temporaries.tail }
  | .createReceipt => { place with receipt := some .torn }
  | .writeReceipt receipt => { place with receipt := some (.whole receipt) }
  | .rename =>
    match place.temporaries with
    | [] => place
    | newest :: rest => { place with temporaries := rest, output := some newest }

def Place.replay (place : Place Blob Digest Manifest) (ops : List (Op Blob Digest Manifest)) :
    Place Blob Digest Manifest :=
  ops.foldl Place.apply place

/-- The checks of the members of an archive, with the names and the bytes of those before. -/
def checkMembers (names : List Name) (total : ℕ) : List (Entry Blob) → Except String Unit
  | [] => .ok ()
  | member :: rest =>
    if member.regular = false ∨ isCanonical member.name = false ∨ member.name ∈ names then
      .error "unsafe or repeated sealed archive member"
    else if maxFiles < names.length + 1 ∨ Artifacts.maxBytes < total + formats.size member.content then
      .error "sealed archive exceeds extraction bounds"
    else checkMembers (member.name :: names) (total + formats.size member.content) rest

def blocked (files : OrderedTable Path Blob) (path : Path) : Bool :=
  decide (path = []) || files.items.any fun item => decide (item.1 <+: path ∨ path <+: item.1)

/-- The operations that unpack an archive, and the files that are there then. -/
abbrev Extraction (Blob Digest Manifest : Type) :=
  List (Op Blob Digest Manifest) × Except String (OrderedTable Path Blob)

def extract (files : OrderedTable Path Blob) : List (Entry Blob) → Extraction Blob Digest Manifest
  | [] => ([], .ok files)
  | member :: rest =>
    if blocked files (parts member.name) then ([], .error "File exists")
    else
      let later := extract (files.push (parts member.name) member.content) rest
      (.writeFile (parts member.name) member.content :: later.1, later.2)

/-- The name matches `group-*.seal.json`. -/
def matchesSeal (name : Name) : Bool :=
  decide (sealPrefix <+: name ∧ sealSuffix <:+ name ∧ 16 ≤ name.length)

/-- The files and directories at the top whose names match `group-*.seal.json`. -/
def sealEntries (files : OrderedTable Path Blob) : List Name :=
  (files.items.filterMap fun item => item.1.head?).dedup.filter matchesSeal

def agrees (files : OrderedTable Path Blob) (item : Name × Row Digest) : Bool :=
  (files.get? (parts item.1)).any fun blob => decide (fileSha256 formats blob = item.2)

/-- The checks of the unpacked files: one seal, and exactly its inventory. -/
def review (files : OrderedTable Path Blob) (names : List Name) : Except String (Name × Blob) :=
  match sealEntries files with
  | [sealFile] =>
    match files.get? [sealFile] with
    | none => .error "Expected a bounded regular JSON file"
    | some blob =>
      match formats.read blob with
      | none => .error "Expected a JSON object"
      | some original =>
        if original.kind ≠ "terminalbench-sealed-group" ∨
            formats.evidence original.inventory ≠ original.inventorySha256 ∨
            (∃ name ∈ names, (original.inventory.get? name).isNone ∧ name ≠ sealFile) ∨
            (∃ item ∈ original.inventory.items, item.1 ∉ names) ∨ sealFile ∉ names then
          .error "transported archive does not exactly cover original sealed inventory"
        else if (original.inventory.items.all (agrees formats files)) = false then
          .error "transported original evidence hash differs"
        else .ok (sealFile, blob)
  | _ => .error "automatic artifact must contain one original seal"

abbrev Outcome (Blob Digest Manifest : Type) := List (Op Blob Digest Manifest) × Except String Name

def Place.receiveNew (place : Place Blob Digest Manifest) (manifest : Manifest)
    (entries : List (Entry Blob)) : Outcome Blob Digest Manifest :=
  match checkMembers formats [] 0 entries with
  | .error error => ([.makeTemporary, .removeTemporary], .error error)
  | .ok () =>
    let extracted := extract ∅ entries
    let prepare := .makeTemporary :: extracted.1
    match extracted.2 with
    | .error error => (prepare ++ [.removeTemporary], .error error)
    | .ok files =>
      match review formats files (entries.map Entry.name) with
      | .error error => (prepare ++ [.removeTemporary], .error error)
      | .ok (sealFile, blob) =>
        let receipt := ⟨1, manifest, sealFile, formats.content blob⟩
        match place.receipt with
        | none => (prepare ++ [.createReceipt, .writeReceipt receipt, .rename], .ok sealFile)
        | some .torn => (prepare ++ [.removeTemporary], .error "Expecting value")
        | some (.whole found) =>
          if found ≠ receipt then
            (prepare ++ [.removeTemporary], .error "pending immutable import receipt differs")
          else (prepare ++ [.rename], .ok sealFile)

/-- An import whose destination exists. -/
def Place.receiveAgain (place : Place Blob Digest Manifest) (files : OrderedTable Path Blob)
    (manifest : Manifest) : Except String Name :=
  match place.receipt with
  | none => .error "No such file or directory"
  | some .torn => .error "Expecting value"
  | some (.whole receipt) =>
    if receipt.artifact ≠ manifest then
      .error "existing evidence destination is not this immutable artifact"
    else match files.get? (parts receipt.sealFile) with
      | none => .error "No such file or directory"
      | some blob =>
        if formats.content blob ≠ receipt.sealSha256 then .error "imported original seal changed"
        else match formats.read blob with
          | none => .error "Expected a JSON object"
          | some original =>
            if (original.inventory.items.all (agrees formats files)) = false then
              .error "imported original evidence changed"
            else .ok receipt.sealFile

/-- `receive_sealed` of a delivered artifact. -/
def Place.receiveSealed (place : Place Blob Digest Manifest) (manifest : Manifest)
    (entries : List (Entry Blob)) : Outcome Blob Digest Manifest :=
  match place.output with
  | some files => ([], place.receiveAgain formats files manifest)
  | none => place.receiveNew formats manifest entries

/-- The place after an import that is stopped after its first operations, or that runs to its end. -/
def Place.attempt (place : Place Blob Digest Manifest) (manifest : Manifest)
    (entries : List (Entry Blob)) (count : ℕ) : Place Blob Digest Manifest :=
  place.replay ((place.receiveSealed formats manifest entries).1.take count)

end TinyDSV41.Sealed
