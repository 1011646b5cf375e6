/-
**The archive of a sealed group.**

* `written_inventory` — a sealed output holds the seals of its groups, and its inventory holds all other
  files.
* `published_packs` — an archive holds the inventory and the seal.
* `archive_get` — the original files and the original seal come out of it.
* `archive_seals` — one seal is found in it, unless a directory has the name of a seal.
* `accepted_covers` — an archive that an import accepts is one seal and exactly its inventory.
-/

import TinyDSV41.Sealed.Basic
import Mathlib.Data.List.Induction
import Mathlib.Data.List.Dedup

namespace TinyDSV41.Sealed

open List Lib Bool Artifacts List.Forall₂
open OrderedTable (get?_push get?_push_ne get?_push_self items_remove_of_absent mem_items total values)

variable {Blob Digest Manifest : Type} {formats : Formats Blob Digest}
  {tree sealed : Tree Blob} {groups : List Group} {group : Group}
  {closure : Closure} {inventory : Inventory Digest} {entries : List (Entry Blob)} {groupId : ℤ}
  {path : Path} {name : Name} {blob : Blob}

/-! ### Seals -/

variable (groupId : ℤ)

theorem suffix_sealName : sealSuffix <:+ sealName groupId := suffix_append _ _

theorem matchesSeal_sealName : matchesSeal (sealName groupId) = true := by
  refine decide_eq_true ⟨?_, suffix_sealName groupId, ?_⟩
  · exact ⟨digits groupId ++ sealSuffix, (append_assoc _ _ _).symm⟩
  · unfold sealName
    rw [length_append, length_append]
    show 16 ≤ 6 + (digits groupId).length + 10
    omega

theorem isSeal_single : isSeal [name] = true ↔ sealSuffix <:+ name := by
  simp [isSeal]

theorem isSeal_sealName : isSeal [sealName groupId] = true :=
  isSeal_single.mpr (suffix_sealName groupId)

theorem proper_sealName : ∀ name ∈ [sealName groupId], isComponent name = true := by
  intro name mem
  rw [mem_singleton.mp mem]
  exact sealName_component groupId

theorem posix_single (name : Name) : posix [name] = name := by
  simp [posix]

theorem parts_sealName : parts (sealName groupId) = [sealName groupId] := by
  have same := parts_posix (proper_sealName groupId)
  rw [posix_single] at same
  exact same

theorem Tree.proper_of_get (tree : Tree Blob) (found : tree.files.get? path = some blob) :
    path ≠ [] ∧ ∀ name ∈ path, isComponent name = true :=
  tree.proper _ (mem_items.mpr found)

/-! ### What is sealed -/

/-- The items of an inventory: the files that are no seals, by their texts. -/
theorem inventoryOf_items {files : List (Path × Blob)} (distinct : (files.map Prod.fst).Nodup)
    (proper : ∀ item ∈ files, ∀ name ∈ item.1, isComponent name = true) :
    (inventoryOf formats files).items = (files.filter fun file => isSeal file.1 = false).map fun file =>
          (posix file.1, fileSha256 formats file.2) := by
  induction files using reverseRecOn with
  | nil => rfl
  | append_singleton before last known =>
    rw [map_append, nodup_append] at distinct
    have earlier := known distinct.1 fun item member => proper item (mem_append_left _ member)
    have here := proper last (mem_append_right _ (mem_singleton_self last))
    rw [filter_append, map_append, ← earlier]
    unfold inventoryOf
    rw [foldl_append, foldl_cons, foldl_nil]
    by_cases sealing : isSeal last.1 = true
    · rw [if_pos sealing, filter_singleton, sealing]
      simp
    · have absent : (inventoryOf formats before).get? (posix last.1) = none := by
        rw [Option.eq_none_iff_forall_ne_some]
        intro row found
        have member := mem_items.mpr found
        rw [earlier] at member
        obtain ⟨item, inside, same⟩ := mem_map.mp member
        have known := (mem_filter.mp inside).1
        have equal := posix_injective (proper item (mem_append_left _ known)) here (Prod.mk.inj same).1
        exact distinct.2.2 _ (mem_map_of_mem known) _ (mem_map_of_mem (mem_singleton_self last)) equal
      have same : ((inventoryOf formats before).push (posix last.1) (fileSha256 formats last.2)).items
          = (inventoryOf formats before).items ++ [(posix last.1, fileSha256 formats last.2)] :=
        congrArg (· ++ _) (items_remove_of_absent absent)
      rw [if_neg sealing, filter_singleton, eq_false_iff.mpr sealing]
      exact same

theorem inventoryOf_get {row : Row Digest} : (inventoryOf formats tree.files.items).get? name = some row ↔
      ∃ path blob, tree.files.get? path = some blob ∧ isSeal path = false ∧ posix path = name ∧
        fileSha256 formats blob = row := by
  rw [← mem_items, inventoryOf_items tree.files.distinct
    fun item mem => (tree.proper item mem).2, mem_map]
  constructor
  · rintro ⟨⟨path, blob⟩, mem, same⟩
    obtain ⟨found, ordinary⟩ := mem_filter.mp mem
    exact ⟨path, blob, mem_items.mp found, of_decide_eq_true ordinary,
      (Prod.mk.inj same).1, (Prod.mk.inj same).2⟩
  · rintro ⟨path, blob, found, ordinary, rfl, rfl⟩
    exact ⟨(path, blob), mem_filter.mpr ⟨mem_items.mpr found, decide_eq_true ordinary⟩, rfl⟩

theorem writeSeal_ok (written : writeSeal formats closure inventory tree group = .ok sealed) :
    (∀ item ∈ tree.files.items, item.1.head? ≠ some (sealName group.groupId)) ∧
      sealed.files = tree.files.push [sealName group.groupId]
        (formats.write (sealOf formats closure inventory group)) := by
  unfold writeSeal at written
  split_ifs at written with free
  cases written
  exact ⟨free, rfl⟩

/-- The seals are added, and what was there stays. -/
theorem addSeals_ok (added : addSeals formats closure inventory tree groups = .ok sealed) :
    (∀ path blob, tree.files.get? path = some blob → sealed.files.get? path = some blob) ∧
      (∀ path, isSeal path = false → sealed.files.get? path = tree.files.get? path) ∧
      ∀ group ∈ groups, sealed.files.get? [sealName group.groupId]
        = some (formats.write (sealOf formats closure inventory group)) := by
  induction groups generalizing tree with
  | nil =>
    cases added
    exact ⟨fun _ _ found => found, fun _ _ => rfl, nofun⟩
  | cons group rest known =>
    unfold addSeals at added
    split at added
    case h_1 => cases added
    case h_2 later written =>
      obtain ⟨free, same⟩ := writeSeal_ok written
      obtain ⟨stays, others, sealing⟩ := known added
      have here : later.files.get? [sealName group.groupId]
          = some (formats.write (sealOf formats closure inventory group)) := by
        rw [same, get?_push_self]
      refine ⟨fun path blob found => stays path blob ?_, fun path ordinary => ?_, ?_⟩
      · rw [same, get?_push_ne]
        · exact found
        · rintro rfl
          exact free _ (mem_items.mpr found) rfl
      · rw [others path ordinary, same, get?_push_ne]
        rintro rfl
        rw [isSeal_sealName] at ordinary
        cases ordinary
      · intro other mem
        rcases mem_cons.mp mem with rfl | mem
        · exact stays _ _ here
        · exact sealing other mem

theorem written_inventory (written : writeSeals formats tree groups closure = .ok sealed) :
    closure.coordinatorClosed = true ∧ closure.cpuSpoolTerminal = true ∧
      (∀ path, isSeal path = false → sealed.files.get? path = tree.files.get? path) ∧
      ∀ group ∈ groups, sealed.files.get? [sealName group.groupId]
        = some (formats.write (sealOf formats closure (inventoryOf formats tree.files.items) group)) := by
  unfold writeSeals at written
  split_ifs at written with open_
  obtain ⟨closed, terminal⟩ := not_or.mp open_
  split at written
  case h_1 => cases written
  case h_2 inventory same =>
    unfold sealedInventory at same
    dsimp only at same
    split_ifs at same with large
    cases same
    obtain ⟨-, others, sealing⟩ := addSeals_ok written
    exact ⟨eq_true_of_not_eq_false closed, eq_true_of_not_eq_false terminal, others, sealing⟩

/-! ### What is packed -/

structure Packs (formats : Formats Blob Digest) (tree : Tree Blob) (member : Name × Row Digest)
    (entry : Entry Blob) : Prop where
  name : entry.name = member.1
  regular : entry.regular = true
  canonical : isCanonical entry.name = true
  there : tree.files.get? (parts entry.name) = some entry.content
  row : fileSha256 formats entry.content = member.2

variable {members : List (Name × Row Digest)}
variable {entry : Entry Blob}

section

variable (packs : List.Forall₂ (Packs formats tree) members entries)
include packs

theorem names_of_packs : entries.map Entry.name = members.map Prod.fst := by
  induction packs with
  | nil => rfl
  | cons first _ known => rw [map_cons, map_cons, known, first.name]

theorem sizes_of_packs :
    entries.map (fun entry => formats.size entry.content) = members.map fun mem => mem.2.bytes := by
  induction packs with
  | nil => rfl
  | cons first _ known => rw [map_cons, map_cons, known, ← first.row, fileSha256]

theorem member_of_packs (inside : entry ∈ entries) :
    ∃ member ∈ members, Packs formats tree member entry := by
  induction packs with
  | nil => cases inside
  | cons first _ known =>
    rcases mem_cons.mp inside with rfl | inside
    · exact ⟨_, mem_cons_self, first⟩
    · obtain ⟨member, there, packs⟩ := known inside
      exact ⟨member, mem_cons_of_mem _ there, packs⟩

end

/-- An archive of a table of members within the bounds. -/
structure Archived (formats : Formats Blob Digest) (tree : Tree Blob) (members : Inventory Digest)
    (entries : List (Entry Blob)) : Prop where
  distinct : (entries.map Entry.name).Nodup
  covers : ∀ name, name ∈ entries.map Entry.name ↔ (members.get? name).isSome = true
  packs : ∀ entry ∈ entries, ∃ row, members.get? entry.name = some row ∧
    Packs formats tree (entry.name, row) entry
  few : entries.length ≤ maxFiles
  small : (entries.map fun entry => formats.size entry.content).sum ≤ maxBytes

theorem archived_of_packs {members : Inventory Digest} (few : members.length ≤ maxFiles)
    (small : (members.total fun row => row.bytes) ≤ maxBytes)
    (packs : List.Forall₂ (Packs formats tree) (members.items.insertionSort byName) entries) :
    Archived formats tree members entries := by
  have sorted := perm_insertionSort byName members.items
  have names := names_of_packs packs
  have keys := sorted.map Prod.fst
  refine ⟨?_, fun name => ?_, fun entry inside => ?_, ?_, ?_⟩
  · rw [names]
    exact keys.nodup_iff.mpr members.distinct
  · rw [names, keys.mem_iff, mem_map, Option.isSome_iff_exists]
    constructor
    · rintro ⟨⟨_, row⟩, mem, rfl⟩
      exact ⟨row, mem_items.mp mem⟩
    · rintro ⟨row, found⟩
      exact ⟨(name, row), mem_items.mpr found, rfl⟩
  · obtain ⟨⟨name, row⟩, mem, packed⟩ := member_of_packs packs inside
    obtain rfl : entry.name = name := packed.name
    exact ⟨row, mem_items.mp (sorted.mem_iff.mp mem), packed⟩
  · have length := congrArg length names
    rw [length_map, length_map, sorted.length_eq] at length
    rw [length]
    exact few
  · rw [sizes_of_packs packs, (sorted.map _).sum_eq]
    refine le_trans (le_of_eq ?_) small
    unfold OrderedTable.total OrderedTable.values
    rw [map_map]
    rfl

section Packing

variable [DecidableEq Digest]

theorem packMember_ok {mem : Name × Row Digest} (packed : packMember formats tree mem = .ok entry) :
    Packs formats tree mem entry := by
  unfold packMember at packed
  split_ifs at packed with unsafe_
  split at packed
  case h_1 => cases packed
  case h_2 blob found =>
    split_ifs at packed with changed
    cases packed
    exact ⟨rfl, rfl, eq_true_of_not_eq_false unsafe_, found, not_not.mp changed⟩

theorem packMembers_ok (packed : packMembers formats tree members = .ok entries) :
    List.Forall₂ (Packs formats tree) members entries := by
  induction members generalizing entries with
  | nil =>
    cases packed
    exact nil
  | cons mem rest known =>
    unfold packMembers at packed
    split at packed
    case h_1 => cases packed
    case h_2 entry first =>
      split at packed
      case h_1 => cases packed
      case h_2 later others =>
        cases packed
        exact cons (packMember_ok first) (known others)

theorem published_packs (written : writeSeals formats tree groups closure = .ok sealed)
    (mem : group ∈ groups) (published : publishSealed formats sealed group.groupId = .ok entries) :
    let original := sealOf formats closure (inventoryOf formats tree.files.items) group
    formats.read (formats.write original) = some original ∧
      Archived formats sealed (original.inventory.push (sealName group.groupId)
        (fileSha256 formats (formats.write original))) entries := by
  intro original
  obtain ⟨-, -, -, sealing⟩ := written_inventory written
  have there : sealed.files.get? [sealName group.groupId] = some (formats.write original) :=
    sealing group mem
  unfold publishSealed at published
  split_ifs at published with negative
  rw [there] at published
  dsimp only at published
  split at published
  case h_1 => cases published
  case h_2 found reads =>
    obtain rfl := formats.read_write original found reads
    split_ifs at published with other large
    obtain ⟨few, small⟩ := not_or.mp large
    exact ⟨reads, archived_of_packs (not_not.mp few).2 (not_lt.mp small) (packMembers_ok published)⟩

end Packing

/-! ### What is unpacked -/

theorem checkMembers_ok {names : List Name} {total : ℕ} :
    checkMembers formats names total entries = .ok () ↔
      (∀ entry ∈ entries, entry.regular = true ∧ isCanonical entry.name = true ∧ entry.name ∉ names) ∧
        (entries.map Entry.name).Nodup ∧ (entries ≠ [] → names.length + entries.length ≤ maxFiles ∧
            total + (entries.map fun entry => formats.size entry.content).sum ≤ maxBytes) := by
  induction entries generalizing names total with
  | nil => simp [checkMembers]
  | cons entry rest known =>
    unfold checkMembers
    split_ifs with unsafe_ large
    · refine ⟨nofun, fun fine => ?_⟩
      obtain ⟨regular, canonical, fresh⟩ := fine.1 entry mem_cons_self
      rcases unsafe_ with other | other | other
      · rw [regular] at other
        cases other
      · rw [canonical] at other
        cases other
      · exact absurd other fresh
    · refine ⟨nofun, fun fine => ?_⟩
      obtain ⟨few, small⟩ := fine.2.2 (cons_ne_nil _ _)
      rw [length_cons] at few
      rw [map_cons, sum_cons] at small
      omega
    · rw [known, forall_mem_cons, map_cons, nodup_cons, map_cons, sum_cons, length_cons, length_cons]
      obtain ⟨regular, others⟩ := not_or.mp unsafe_
      obtain ⟨canonical, fresh⟩ := not_or.mp others
      have here : entry.regular = true ∧ isCanonical entry.name = true ∧ entry.name ∉ names :=
        ⟨eq_true_of_not_eq_false regular, eq_true_of_not_eq_false canonical, fresh⟩
      constructor
      · rintro ⟨fine, distinct, bounds⟩
        refine ⟨⟨here, fun other inside => ?_⟩, ⟨fun again => ?_, distinct⟩, fun _ => ?_⟩
        · obtain ⟨regular', canonical', fresh'⟩ := fine other inside
          exact ⟨regular', canonical', fun before => fresh' (mem_cons_of_mem _ before)⟩
        · obtain ⟨other, inside, same⟩ := mem_map.mp again
          exact (fine other inside).2.2 (by rw [same]; exact mem_cons_self)
        · by_cases last : rest = []
          · subst last
            rw [length_nil, map_nil, sum_nil]
            omega
          · have := bounds last
            omega
      · rintro ⟨⟨-, fine⟩, ⟨fresh', distinct⟩, bounds⟩
        refine ⟨fun other inside => ?_, distinct, fun _ => ?_⟩
        · obtain ⟨regular', canonical', before⟩ := fine other inside
          refine ⟨regular', canonical', fun again => ?_⟩
          rcases mem_cons.mp again with same | again
          · exact fresh' (mem_map.mpr ⟨other, inside, same⟩)
          · exact before again
        · have := bounds (cons_ne_nil _ _)
          omega

variable {files out : OrderedTable Path Blob} {ops : List (Op Blob Digest Manifest)}

theorem blocked_eq_false : blocked files path = false ↔
    path ≠ [] ∧ ∀ item ∈ files.items, ¬ (item.1 <+: path ∨ path <+: item.1) := by
  unfold blocked
  rw [or_eq_false_iff, decide_eq_false_iff_not, any_eq_false]
  simp only [decide_eq_true_eq, ne_eq]

theorem items_push_of_free (free : blocked files path = false) :
    (files.push path blob).items = files.items ++ [(path, blob)] := by
  have absent : files.get? path = none := by
    rw [Option.eq_none_iff_forall_ne_some]
    intro found there
    exact (blocked_eq_false.mp free).2 _ (mem_items.mpr there) (Or.inl (prefix_refl path))
  exact congrArg (· ++ _) (items_remove_of_absent absent)

theorem extract_items
    (extracted : (extract files entries : Extraction Blob Digest Manifest) = (ops, .ok out)) :
    out.items = files.items ++ entries.map fun entry => (parts entry.name, entry.content) := by
  induction entries generalizing files ops with
  | nil =>
    cases extracted
    rw [map_nil, append_nil]
  | cons entry rest known =>
    unfold extract at extracted
    split_ifs at extracted with taken
    · cases extracted
    · have later := known (Prod.ext rfl (Prod.mk.inj extracted).2)
      rw [later, items_push_of_free (eq_false_iff.mpr taken), map_cons, append_assoc]
      rfl

theorem extract_of_apart (filled : ∀ entry ∈ entries, parts entry.name ≠ [])
    (apart : entries.Pairwise fun one two =>
      ¬ (parts one.name <+: parts two.name ∨ parts two.name <+: parts one.name))
    (free : ∀ item ∈ files.items, ∀ entry ∈ entries,
      ¬ (item.1 <+: parts entry.name ∨ parts entry.name <+: item.1)) :
    ∃ ops out, (extract files entries : Extraction Blob Digest Manifest) = (ops, .ok out) := by
  induction entries generalizing files with
  | nil => exact ⟨[], files, rfl⟩
  | cons entry rest known =>
    obtain ⟨here, others⟩ := pairwise_cons.mp apart
    have possible : blocked files (parts entry.name) = false :=
      blocked_eq_false.mpr ⟨filled entry mem_cons_self,
        fun item mem => free item mem entry mem_cons_self⟩
    have later : ∀ item ∈ (files.push (parts entry.name) entry.content).items, ∀ other ∈ rest,
        ¬ (item.1 <+: parts other.name ∨ parts other.name <+: item.1) := by
      intro item mem other inside
      rw [items_push_of_free possible, mem_append, mem_singleton] at mem
      rcases mem with before | rfl
      · exact free item before other (mem_cons_of_mem _ inside)
      · exact here other inside
    obtain ⟨ops, out, extracted⟩ :=
      known (fun other inside => filled other (mem_cons_of_mem _ inside)) others later
    refine ⟨.writeFile (parts entry.name) entry.content :: ops, out, ?_⟩
    unfold extract
    rw [if_neg (by rw [possible]; exact false_ne_true)]
    rw [extracted]

theorem extract_get (extracted : (extract ∅ entries : Extraction Blob Digest Manifest) = (ops, .ok out)) :
    out.get? path = some blob ↔ ∃ entry ∈ entries, parts entry.name = path ∧ entry.content = blob := by
  have items : out.items = [] ++ entries.map fun entry => (parts entry.name, entry.content) :=
    extract_items extracted
  rw [← mem_items, items, nil_append, mem_map]
  simp only [Prod.mk.injEq]

theorem mem_sealEntries {files : OrderedTable Path Blob} : name ∈ sealEntries files ↔
    (∃ item ∈ files.items, item.1.head? = some name) ∧ matchesSeal name = true := by
  unfold sealEntries
  rw [mem_filter, mem_dedup, mem_filterMap]

/-! ### What is accepted -/

variable [DecidableEq Digest] {names : List Name} {sealFile : Name} {original : Seal Digest}

/-- The unpacked files are one seal and exactly its inventory. -/
structure Reviewed (formats : Formats Blob Digest) (files : OrderedTable Path Blob)
    (names : List Name) (sealFile : Name) (blob : Blob) (original : Seal Digest) : Prop where
  one : sealEntries files = [sealFile]
  there : files.get? [sealFile] = some blob
  reads : formats.read blob = some original
  kind : original.kind = "terminalbench-sealed-group"
  evidence : formats.evidence original.inventory = original.inventorySha256
  named : ∀ name ∈ names, (original.inventory.get? name).isSome = true ∨ name = sealFile
  complete : ∀ item ∈ original.inventory.items, item.1 ∈ names
  itself : sealFile ∈ names
  rows : ∀ item ∈ original.inventory.items, agrees formats files item = true

theorem review_ok : review formats files names = .ok (sealFile, blob) ↔
    ∃ original, Reviewed formats files names sealFile blob original := by
  constructor
  · intro accepted
    unfold review at accepted
    split at accepted
    case h_2 => cases accepted
    case h_1 only one =>
      split at accepted
      case h_1 => cases accepted
      case h_2 content there =>
        split at accepted
        case h_1 => cases accepted
        case h_2 original reads =>
          split_ifs at accepted with uncovered differs
          cases accepted
          obtain ⟨kind, others⟩ := not_or.mp uncovered
          obtain ⟨evidence, others⟩ := not_or.mp others
          obtain ⟨named, others⟩ := not_or.mp others
          obtain ⟨complete, itself⟩ := not_or.mp others
          refine ⟨original, one, there, reads, not_not.mp kind, not_not.mp evidence, ?_, ?_,
            not_not.mp itself, all_eq_true.mp (eq_true_of_not_eq_false differs)⟩
          · intro name mem
            by_cases same : name = sealFile
            · exact Or.inr same
            · refine Or.inl (Option.isSome_iff_ne_none.mpr fun absent => named ⟨name, mem, ?_, same⟩)
              rw [absent]
              rfl
          · intro item mem
            by_contra missing
            exact complete ⟨item, mem, missing⟩
  · rintro ⟨original, fine⟩
    unfold review
    rw [fine.one]
    dsimp only
    rw [fine.there]
    dsimp only
    rw [fine.reads]
    dsimp only
    have covered : ¬ (original.kind ≠ "terminalbench-sealed-group" ∨
        formats.evidence original.inventory ≠ original.inventorySha256 ∨
        (∃ name ∈ names, (original.inventory.get? name).isNone = true ∧ name ≠ sealFile) ∨
        (∃ item ∈ original.inventory.items, item.1 ∉ names) ∨ sealFile ∉ names) := by
      rintro (other | other | ⟨name, mem, absent, differs⟩ | ⟨item, mem, missing⟩ | missing)
      · exact other fine.kind
      · exact other fine.evidence
      · rcases fine.named name mem with present | same
        · rw [Option.isNone_iff_eq_none.mp absent] at present
          cases present
        · exact differs same
      · exact missing (fine.complete item mem)
      · exact missing fine.itself
    rw [if_neg covered, if_neg]
    rw [all_eq_true.mpr fine.rows]
    exact nofun

/-- An archive that a new import accepts. -/
structure Accepted (formats : Formats Blob Digest) (entries : List (Entry Blob))
    (ops : List (Op Blob Digest Manifest)) (out : OrderedTable Path Blob) (sealFile : Name)
    (blob : Blob) : Prop where
  checked : checkMembers formats [] 0 entries = .ok ()
  extracted : extract ∅ entries = (ops, .ok out)
  reviewed : review formats out (entries.map Entry.name) = .ok (sealFile, blob)

/-! ### What an accepted archive covers -/

/-- The members are regular and named once, and they are one seal and exactly its inventory. -/
structure Covers (formats : Formats Blob Digest) (entries : List (Entry Blob)) (sealFile : Name) :
    Prop where
  ordinary : ∀ entry ∈ entries, entry.regular = true ∧ isCanonical entry.name = true
  distinct : (entries.map Entry.name).Nodup
  one : matchesSeal sealFile = true ∧ ∀ entry ∈ entries, ∀ name,
    (parts entry.name).head? = some name → matchesSeal name = true → name = sealFile
  exactly : ∃ seal' ∈ entries, ∃ original, seal'.name = sealFile ∧
    formats.read seal'.content = some original ∧ original.kind = "terminalbench-sealed-group" ∧
    formats.evidence original.inventory = original.inventorySha256 ∧
    (∀ name, name ∈ entries.map Entry.name ↔
      (original.inventory.get? name).isSome = true ∨ name = sealFile) ∧
    ∀ entry ∈ entries, ∀ row, original.inventory.get? entry.name = some row →
      fileSha256 formats entry.content = row

theorem Accepted.seal_entry (accepted : Accepted formats entries ops out sealFile blob)
    (reviewed : Reviewed formats out (entries.map Entry.name) sealFile blob original) :
    ∃ entry ∈ entries, entry.name = sealFile ∧ entry.content = blob := by
  obtain ⟨entry, inside, same, content⟩ := (extract_get accepted.extracted).mp reviewed.there
  have canonical := ((checkMembers_ok.mp accepted.checked).1 entry inside).2.1
  have text := (isCanonical_iff.mp canonical).2.2
  rw [same, posix_single] at text
  exact ⟨entry, inside, text.symm, content⟩

theorem accepted_covers (accepted : Accepted formats entries ops out sealFile blob) :
    Covers formats entries sealFile := by
  obtain ⟨original, reviewed⟩ := review_ok.mp accepted.reviewed
  obtain ⟨fine, distinct, -⟩ := checkMembers_ok.mp accepted.checked
  have items : out.items = [] ++ entries.map fun entry => (parts entry.name, entry.content) :=
    extract_items accepted.extracted
  have only : ∀ name, name ∈ sealEntries out ↔ name = sealFile := by
    intro name
    rw [reviewed.one, mem_singleton]
  refine ⟨fun entry inside => ⟨(fine entry inside).1, (fine entry inside).2.1⟩, distinct,
    ⟨(mem_sealEntries.mp ((only sealFile).mpr rfl)).2, fun entry inside name head matches_ => ?_⟩, ?_⟩
  · refine (only name).mp (mem_sealEntries.mpr ⟨⟨(parts entry.name, entry.content), ?_, head⟩, matches_⟩)
    rw [items]
    exact mem_map_of_mem inside
  · obtain ⟨seal', inside, named, rfl⟩ := accepted.seal_entry reviewed
    refine ⟨seal', inside, original, named, reviewed.reads, reviewed.kind, reviewed.evidence, fun name =>
      ⟨reviewed.named name, ?_⟩, fun entry inside row found => ?_⟩
    · rintro (present | rfl)
      · obtain ⟨row, found⟩ := Option.isSome_iff_exists.mp present
        exact reviewed.complete (name, row) (mem_items.mpr found)
      · exact reviewed.itself
    · have row' := reviewed.rows _ (mem_items.mpr found)
      obtain ⟨content, there, same⟩ := (Option.any_eq_true _ _).mp row'
      obtain ⟨other, inside', path, rfl⟩ := (extract_get accepted.extracted).mp there
      have names := canonical_injective (fine other inside').2.1 (fine entry inside).2.1 path
      obtain rfl : other = entry := inj_on_of_nodup_map distinct inside' inside names
      exact of_decide_eq_true same

/-! ### The way of a sealed group -/

/-- No file of the inventory lies in a directory at the top that has the name of a seal. -/
def NoSealDirectory (tree : Tree Blob) : Prop :=
  ∀ path blob, tree.files.get? path = some blob → isSeal path = false →
    ∀ name, path.head? = some name → matchesSeal name = false

/-- A sealed output, one of its groups and the archive that is published of it. -/
structure Published (formats : Formats Blob Digest) (tree : Tree Blob) (groups : List Group)
    (closure : Closure) (sealed : Tree Blob) (group : Group) (entries : List (Entry Blob)) : Prop where
  written : writeSeals formats tree groups closure = .ok sealed
  member : group ∈ groups
  published : publishSealed formats sealed group.groupId = .ok entries

section Way

variable (way : Published formats tree groups closure sealed group entries)

include way

theorem member_of_archive (inside : entry ∈ entries) :
    sealed.files.get? (parts entry.name) = some entry.content ∧
      (parts entry.name = [sealName group.groupId] ∨ isSeal (parts entry.name) = false) := by
  obtain ⟨-, archived⟩ := published_packs way.written way.member way.published
  obtain ⟨row, found, packs⟩ := archived.packs entry inside
  refine ⟨packs.there, ?_⟩
  rw [get?_push] at found
  split_ifs at found with same
  · exact Or.inl (by rw [same, parts_sealName])
  · obtain ⟨path, blob, there, ordinary, name, -⟩ := inventoryOf_get.mp found
    rw [← name, parts_posix (tree.proper_of_get there).2]
    exact Or.inr ordinary

theorem archive_holds (found : sealed.files.get? path = some blob)
    (kept : path = [sealName group.groupId] ∨ isSeal path = false) :
    ∃ entry ∈ entries, parts entry.name = path ∧ entry.content = blob := by
  obtain ⟨-, archived⟩ := published_packs way.written way.member way.published
  have named : ∃ entry ∈ entries, entry.name = posix path := by
    refine mem_map.mp ((archived.covers _).mpr ?_)
    rw [get?_push]
    split_ifs with same
    · rfl
    · rcases kept with rfl | ordinary
      · exact absurd (posix_single _) same
      · obtain ⟨-, -, others, -⟩ := written_inventory way.written
        rw [others path ordinary] at found
        rw [Option.isSome_iff_exists]
        exact ⟨_, inventoryOf_get.mpr ⟨path, blob, found, ordinary, rfl, rfl⟩⟩
  obtain ⟨entry, inside, name⟩ := named
  have same : parts entry.name = path := by rw [name, parts_posix (sealed.proper_of_get found).2]
  have there := (member_of_archive way inside).1
  rw [same, found] at there
  exact ⟨entry, inside, same, (Option.some.inj there).symm⟩

variable (Manifest) in
theorem archive_extracted : checkMembers formats [] 0 entries = .ok () ∧
    ∃ ops out, (extract ∅ entries : Extraction Blob Digest Manifest) = (ops, .ok out) := by
  obtain ⟨-, archived⟩ := published_packs way.written way.member way.published
  have canonical : ∀ entry ∈ entries, isCanonical entry.name = true := by
    intro entry inside
    obtain ⟨row, -, packs⟩ := archived.packs entry inside
    exact packs.canonical
  constructor
  · refine checkMembers_ok.mpr ⟨fun entry inside => ?_, archived.distinct, fun _ => ?_⟩
    · obtain ⟨row, -, packs⟩ := archived.packs entry inside
      exact ⟨packs.regular, packs.canonical, not_mem_nil⟩
    · rw [length_nil, Nat.zero_add, Nat.zero_add]
      exact ⟨archived.few, archived.small⟩
  · refine extract_of_apart (fun entry inside => ?_) ?_ nofun
    · exact (sealed.proper_of_get (member_of_archive way inside).1).1
    · have different := pairwise_map.mp archived.distinct
      refine different.imp_of_mem fun {one two} first second differs below => differs ?_
      have there := mem_items.mpr (member_of_archive way first).1
      have there' := mem_items.mpr (member_of_archive way second).1
      refine canonical_injective (canonical one first) (canonical two second) ?_
      rcases below with below | below
      · exact sealed.apart _ there _ there' below
      · exact (sealed.apart _ there' _ there below).symm

variable {ops : List (Op Blob Digest Manifest)} {out : OrderedTable Path Blob}

section

variable (extracted : extract ∅ entries = (ops, .ok out))
include extracted

theorem archive_get : out.get? path
    = if path = [sealName group.groupId] ∨ isSeal path = false then sealed.files.get? path
      else none := by
  ext blob
  rw [extract_get extracted]
  constructor
  · rintro ⟨entry, inside, rfl, rfl⟩
    obtain ⟨there, kept⟩ := member_of_archive way inside
    rw [if_pos kept, there]
  · intro found
    split_ifs at found with kept
    exact archive_holds way found kept

/-- The seal is the only entry at the top with the name of a seal, unless a directory has such a name. -/
theorem archive_seals : sealEntries out = [sealName group.groupId] ↔ NoSealDirectory tree := by
  obtain ⟨-, -, others, sealing⟩ := written_inventory way.written
  obtain ⟨blob, there⟩ : ∃ blob, sealed.files.get? [sealName group.groupId] = some blob :=
    ⟨_, sealing group way.member⟩
  have itself : sealName group.groupId ∈ sealEntries out := by
    refine mem_sealEntries.mpr ⟨⟨([sealName group.groupId], blob), mem_items.mpr ?_, rfl⟩,
      matchesSeal_sealName _⟩
    rw [archive_get way extracted, if_pos (Or.inl rfl)]
    exact there
  constructor
  · intro one path blob found ordinary name head
    by_contra matches_
    have found' : sealed.files.get? path = some blob := by rw [others path ordinary, found]
    have inside : name ∈ sealEntries out := by
      refine mem_sealEntries.mpr ⟨⟨(path, blob), mem_items.mpr ?_, head⟩,
        eq_true_of_not_eq_false matches_⟩
      rw [archive_get way extracted, if_pos (Or.inr ordinary), found']
    rw [one, mem_singleton] at inside
    subst inside
    -- The directory would be the seal itself.
    have below : [sealName group.groupId] <+: path := by
      obtain ⟨rest, same⟩ := head?_eq_some_iff.mp head
      rw [same]
      exact prefix_append [_] rest
    have same := sealed.apart _ (mem_items.mpr there) _
      (mem_items.mpr found') below
    dsimp only at same
    rw [← same, isSeal_sealName] at ordinary
    cases ordinary
  · intro free
    refine perm_singleton.mp ((perm_ext_iff_of_nodup ?_ (nodup_singleton _)).mpr ?_)
    · exact (nodup_dedup _).filter _
    · intro name
      rw [mem_singleton]
      refine ⟨fun inside => ?_, fun same => by rw [same]; exact itself⟩
      obtain ⟨⟨⟨path, blob⟩, mem, head⟩, matches_⟩ := mem_sealEntries.mp inside
      have found := mem_items.mp mem
      rw [archive_get way extracted] at found
      split_ifs at found with kept
      rcases kept with rfl | ordinary
      · exact (Option.some.inj head).symm
      · rw [others path ordinary] at found
        rw [free path blob found ordinary name head] at matches_
        cases matches_

/-- The unpacked files pass the checks, unless a directory has the name of a seal. -/
theorem archive_reviewed (free : NoSealDirectory tree) :
    ∃ blob, review formats out (entries.map Entry.name) = .ok (sealName group.groupId, blob) := by
  obtain ⟨reads, archived⟩ := published_packs way.written way.member way.published
  obtain ⟨-, -, others, sealing⟩ := written_inventory way.written
  refine ⟨_, review_ok.mpr ⟨_, ?one, ?there, reads, rfl, rfl, ?named, ?complete, ?itself, ?rows⟩⟩
  case one => exact (archive_seals way extracted).mpr free
  case there => rw [archive_get way extracted, if_pos (Or.inl rfl), sealing group way.member]
  case named =>
    intro name mem
    have present := (archived.covers name).mp mem
    rw [get?_push] at present
    split_ifs at present with same
    · exact Or.inr same
    · exact Or.inl present
  case complete =>
    intro item mem
    refine (archived.covers item.1).mpr ?_
    rw [get?_push, mem_items.mp mem]
    split_ifs
    · rfl
    · rfl
  case itself =>
    refine (archived.covers _).mpr ?_
    rw [get?_push_self]
    rfl
  case rows =>
    intro item mem
    obtain ⟨path, blob, found, ordinary, name, row⟩ := inventoryOf_get.mp (mem_items.mp mem)
    unfold agrees
    rw [← name, parts_posix (tree.proper_of_get found).2, archive_get way extracted,
      if_pos (Or.inr ordinary), others path ordinary, found]
    exact decide_eq_true row

end

end Way

end TinyDSV41.Sealed
