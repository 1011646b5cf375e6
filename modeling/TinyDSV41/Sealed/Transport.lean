/-
**An import reproduces the sealed group.**

* `reproduces_iff` — the original files and the original seal are there afterwards, unless a directory of
  the inventory has the name of a seal.
* `attempt_underway`, `retry_repeats` — an import that was stopped is made again, unless its receipt is
  torn.
-/

import TinyDSV41.Sealed.Archive
import TinyDSV41.Lib.Transition

namespace TinyDSV41.Sealed

open List Lib Place

variable {Blob Digest Manifest : Type} {formats : Formats Blob Digest} {entries : List (Entry Blob)}
  {path : Path} {blob : Blob} {ops : List (Op Blob Digest Manifest)} {out : OrderedTable Path Blob}

/-! ### What the operations do -/

variable {place : Place Blob Digest Manifest}

@[simp] theorem Place.replay_nil : place.replay [] = place := rfl

@[simp] theorem Place.replay_cons (op : Op Blob Digest Manifest) (rest : List (Op Blob Digest Manifest)) :
    place.replay (op :: rest) = (place.apply op).replay rest := rfl

theorem Place.replay_append (first second : List (Op Blob Digest Manifest)) :
    place.replay (first ++ second) = (place.replay first).replay second := foldl_append

variable {files : OrderedTable Path Blob}

theorem replay_extract {rest : List (OrderedTable Path Blob)}
    (extracted : extract files entries = (ops, .ok out)) (newest : place.temporaries = files :: rest) :
    place.replay ops = { place with temporaries := out :: rest } := by
  induction entries generalizing files ops place with
  | nil =>
    cases extracted
    rw [replay_nil, ← newest]
  | cons entry later known =>
    unfold extract at extracted
    split_ifs at extracted with taken
    · cases extracted
    · obtain ⟨rfl, same⟩ := Prod.mk.inj extracted
      have written : place.apply (.writeFile (parts entry.name) entry.content)
          = { place with temporaries := files.push (parts entry.name) entry.content :: rest } := by
        unfold apply
        rw [newest]
      rw [replay_cons, written, known (Prod.ext rfl same) rfl]

def Op.Temporary : Op Blob Digest Manifest → Prop
  | .makeTemporary | .writeFile _ _ | .removeTemporary => True
  | .createReceipt | .writeReceipt _ | .rename => False

theorem replay_temporary (temporary : ∀ op ∈ ops, op.Temporary) :
    (place.replay ops).receipt = place.receipt ∧ (place.replay ops).output = place.output := by
  induction ops generalizing place with
  | nil => exact ⟨rfl, rfl⟩
  | cons op rest known =>
    obtain ⟨here, later⟩ := forall_mem_cons.mp temporary
    have kept : ((place.apply op).replay rest).receipt = (place.apply op).receipt ∧
        ((place.apply op).replay rest).output = (place.apply op).output := known later
    rw [replay_cons, kept.1, kept.2]
    cases op with
    | makeTemporary | removeTemporary => exact ⟨rfl, rfl⟩
    | writeFile path blob =>
      unfold apply
      cases place.temporaries with
      | nil | cons => exact ⟨rfl, rfl⟩
    | createReceipt | writeReceipt | rename => cases here

theorem temporary_extract (extracted : extract files entries = (ops, .ok out)) :
    ∀ op ∈ ops, op.Temporary := by
  induction entries generalizing files ops with
  | nil =>
    cases extracted
    exact nofun
  | cons entry later known =>
    unfold extract at extracted
    split_ifs at extracted with taken
    · cases extracted
    · obtain ⟨rfl, same⟩ := Prod.mk.inj extracted
      exact forall_mem_cons.mpr ⟨trivial, known (Prod.ext rfl same)⟩

theorem replay_prepare (extracted : extract ∅ entries = (ops, .ok out)) :
    place.replay (.makeTemporary :: ops) = { place with temporaries := out :: place.temporaries } := by
  have newest : (place.apply .makeTemporary).temporaries = ∅ :: place.temporaries := rfl
  rw [replay_cons, replay_extract extracted newest]
  rfl

theorem temporary_prepare (extracted : extract ∅ entries = (ops, .ok out)) :
    ∀ op ∈ (.makeTemporary :: ops : List (Op Blob Digest Manifest)), op.Temporary :=
  forall_mem_cons.mpr ⟨trivial, temporary_extract extracted⟩

def receiptOf (formats : Formats Blob Digest) (manifest : Manifest) (sealFile : Name) (blob : Blob) :
    ImportReceipt Manifest Digest := ⟨1, manifest, sealFile, formats.content blob⟩

/-! ### New and repeated imports -/

variable [DecidableEq Digest] [DecidableEq Manifest] {manifest : Manifest} {sealFile : Name}

theorem accepted_of_answer (answered : (place.receiveNew formats manifest entries).2 = .ok sealFile) :
    ∃ (ops : List (Op Blob Digest Manifest)) (out : OrderedTable Path Blob) (blob : Blob),
      Accepted formats entries ops out sealFile blob := by
  unfold receiveNew at answered
  split at answered
  case h_1 => cases answered
  case h_2 checked =>
    dsimp only at answered
    split at answered
    case h_1 => cases answered
    case h_2 files extracted =>
      split at answered
      case h_1 => cases answered
      case h_2 found blob reviewed =>
        refine ⟨_, files, blob, checked, Prod.ext rfl extracted, ?_⟩
        rw [reviewed]
        split at answered
        · cases answered
          rfl
        · cases answered
        · split_ifs at answered
          cases answered
          rfl

section

variable (accepted : Accepted formats entries ops out sealFile blob)
include accepted

theorem receiveNew_first (fresh : place.receipt = none) :
    place.receiveNew formats manifest entries = (.makeTemporary :: ops ++
      [.createReceipt, .writeReceipt (receiptOf formats manifest sealFile blob), .rename],
      .ok sealFile) := by
  unfold receiveNew
  rw [accepted.checked]
  rw [accepted.extracted]
  dsimp only
  rw [accepted.reviewed]
  rw [fresh]
  rfl

theorem receiveNew_pending
    (pending : place.receipt = some (.whole (receiptOf formats manifest sealFile blob))) :
    place.receiveNew formats manifest entries = (.makeTemporary :: ops ++ [.rename], .ok sealFile) := by
  unfold receiveNew
  rw [accepted.checked]
  rw [accepted.extracted]
  dsimp only
  rw [accepted.reviewed]
  rw [pending]
  dsimp only [receiptOf]
  rw [if_neg (not_not.mpr rfl)]

theorem receiveAgain_accepted
    (whole : place.receipt = some (.whole (receiptOf formats manifest sealFile blob))) :
    place.receiveAgain formats out manifest = .ok sealFile := by
  obtain ⟨original, reviewed⟩ := review_ok.mp accepted.reviewed
  have named : parts sealFile = [sealFile] := by
    obtain ⟨entry, inside, same, -⟩ := (extract_get accepted.extracted).mp reviewed.there
    have canonical' := ((checkMembers_ok.mp accepted.checked).1 entry inside).2.1
    have text := (isCanonical_iff.mp canonical').2.2
    rw [same, posix_single] at text
    rw [text, same, ← text]
  unfold receiveAgain
  rw [whole]
  dsimp only [receiptOf]
  rw [if_neg (not_not.mpr rfl), named, reviewed.there]
  dsimp only
  rw [if_neg (not_not.mpr rfl), reviewed.reads]
  dsimp only
  rw [if_neg]
  rw [all_eq_true.mpr reviewed.rows]
  exact nofun

end

/-! ### Imports that are stopped -/

/-- Imports of one artifact to one destination, each of which may be stopped. -/
def importSystem (formats : Formats Blob Digest) (manifest : Manifest) (entries : List (Entry Blob)) :
    System (Place Blob Digest Manifest) ℕ where
  initial place := place.receipt = none ∧ place.output = none
  step place count := some (place.attempt formats manifest entries count)

/-- The import is not stopped between the creation of its receipt and the end of its writing. -/
def cleanly (formats : Formats Blob Digest) (manifest : Manifest) (entries : List (Entry Blob))
    (place : Place Blob Digest Manifest) (count : ℕ) : Prop :=
  ((place.receiveSealed formats manifest entries).1.take count).getLast? ≠ some .createReceipt

structure Underway (formats : Formats Blob Digest) (manifest : Manifest) (sealFile : Name) (blob : Blob)
    (out : OrderedTable Path Blob) (place : Place Blob Digest Manifest) : Prop where
  receipt : place.receipt = none ∨
    place.receipt = some (.whole (receiptOf formats manifest sealFile blob))
  output : place.output = none ∨ place.output = some out ∧
    place.receipt = some (.whole (receiptOf formats manifest sealFile blob))

theorem take_append_cases {Item : Type} (first second : List Item) (count : ℕ) :
    (first ++ second).take count = first.take count ∨
      ∃ extra, (first ++ second).take count = first ++ second.take (extra + 1) := by
  by_cases within : count ≤ first.length
  · exact Or.inl (take_append_of_le_length within)
  · obtain ⟨extra, same⟩ := Nat.exists_eq_add_of_lt (not_le.mp within)
    refine Or.inr ⟨extra, ?_⟩
    rw [same, Nat.add_assoc, take_length_add_append]

theorem attempt_done {out' : OrderedTable Path Blob} (there : place.output = some out') (count : ℕ) :
    place.attempt formats manifest entries count = place := by
  unfold attempt receiveSealed
  rw [there]
  rw [take_nil, replay_nil]

section

variable (accepted : Accepted formats entries ops out sealFile blob)
include accepted

/-- One attempt brings an import further, or leaves it where it was. -/
theorem attempt_underway {count : ℕ} (clean : cleanly formats manifest entries place count)
    (underway : Underway formats manifest sealFile blob out place) :
    Underway formats manifest sealFile blob out (place.attempt formats manifest entries count) := by
  rcases underway.output with absent | ⟨there, -⟩
  case inr =>
    rw [attempt_done there]
    exact underway
  have new : place.receiveSealed formats manifest entries
      = place.receiveNew formats manifest entries := by
    unfold receiveSealed
    rw [absent]
  have temporary := temporary_prepare accepted.extracted
  -- A stop before the receipt leaves the receipt and the destination as they were.
  have early : Underway formats manifest sealFile blob out
      (place.replay ((.makeTemporary :: ops).take count)) := by
    have kept : (place.replay ((.makeTemporary :: ops).take count)).receipt = place.receipt ∧
        (place.replay ((.makeTemporary :: ops).take count)).output = place.output :=
      replay_temporary fun op mem => temporary op (mem_of_mem_take mem)
    exact ⟨by rw [kept.1]; exact underway.receipt, by rw [kept.2, kept.1]; exact underway.output⟩
  unfold attempt
  unfold cleanly at clean
  rw [new] at clean ⊢
  rcases underway.receipt with none_ | whole
  · rw [receiveNew_first accepted none_] at clean ⊢
    rcases take_append_cases (.makeTemporary :: ops)
      [.createReceipt, .writeReceipt (receiptOf formats manifest sealFile blob), .rename] count with
      same | ⟨extra, same⟩
    · rw [same]
      exact early
    · rw [same] at clean ⊢
      rw [replay_append, replay_prepare accepted.extracted]
      rcases extra with _ | _ | extra
      · exact absurd getLast?_concat clean
      · exact ⟨Or.inr rfl, Or.inl absent⟩
      · rw [take_of_length_le (by simp)]
        exact ⟨Or.inr rfl, Or.inr ⟨rfl, rfl⟩⟩
  · rw [receiveNew_pending accepted whole]
    rcases take_append_cases (.makeTemporary :: ops) [.rename] count with same | ⟨extra, same⟩
    · rw [same]
      exact early
    · rw [same, replay_append, replay_prepare accepted.extracted, take_of_length_le (by simp)]
      exact ⟨Or.inr whole, Or.inr ⟨rfl, whole⟩⟩

theorem retry_repeats (underway : Underway formats manifest sealFile blob out place) :
    (place.receiveSealed formats manifest entries).2 = .ok sealFile ∧
      (place.replay (place.receiveSealed formats manifest entries).1).output = some out := by
  unfold receiveSealed
  rcases underway.output with absent | ⟨there, whole⟩
  · rw [absent]
    rcases underway.receipt with none_ | whole
    · rw [receiveNew_first accepted none_]
      refine ⟨rfl, ?_⟩
      rw [replay_append, replay_prepare accepted.extracted]
      rfl
    · rw [receiveNew_pending accepted whole]
      refine ⟨rfl, ?_⟩
      rw [replay_append, replay_prepare accepted.extracted]
      rfl
  · rw [there]
    exact ⟨receiveAgain_accepted accepted whole, there⟩

theorem underway_run
    (reached : (importSystem formats manifest entries).Reachable (cleanly formats manifest entries)
      place) : Underway formats manifest sealFile blob out place := by
  refine reached.invariant _ (fun start first => ⟨Or.inl first.1, Or.inl first.2⟩) ?_
  intro before count after clean stepped underway
  obtain rfl := Option.some.inj stepped
  exact attempt_underway accepted clean underway

end

/-! ### The way of a sealed group -/

/-- An import answers with the seal, and exactly the original files and the original seal are there. -/
def Reproduces (formats : Formats Blob Digest) (manifest : Manifest) (sealed : Tree Blob)
    (groupId : ℤ) (entries : List (Entry Blob)) (place : Place Blob Digest Manifest) : Prop :=
  (place.receiveSealed formats manifest entries).2 = .ok (sealName groupId) ∧
    ∃ out, (place.replay (place.receiveSealed formats manifest entries).1).output = some out ∧
      ∀ path, out.get? path
        = if path = [sealName groupId] ∨ isSeal path = false then sealed.files.get? path else none

section Way

variable {tree sealed : Tree Blob} {groups : List Group} {closure : Closure} {group : Group}
  (way : Published formats tree groups closure sealed group entries)

include way

omit [DecidableEq Manifest] in
variable (Manifest) in
theorem way_accepted (free : NoSealDirectory tree) :
    ∃ (ops : List (Op Blob Digest Manifest)) (out : OrderedTable Path Blob) (blob : Blob),
      Accepted formats entries ops out (sealName group.groupId) blob ∧ ∀ path, out.get? path
        = if path = [sealName group.groupId] ∨ isSeal path = false then sealed.files.get? path
          else none := by
  obtain ⟨checked, ops, out, extracted⟩ := archive_extracted Manifest way
  obtain ⟨blob, reviewed⟩ := archive_reviewed way extracted free
  exact ⟨ops, out, blob, ⟨checked, extracted, reviewed⟩, fun path => archive_get way extracted⟩

theorem reproduces_iff (fresh : place.receipt = none) (absent : place.output = none) :
    Reproduces formats manifest sealed group.groupId entries place ↔ NoSealDirectory tree := by
  constructor
  · rintro ⟨answered, -⟩
    unfold receiveSealed at answered
    rw [absent] at answered
    obtain ⟨ops, out, blob, accepted⟩ := accepted_of_answer answered
    obtain ⟨original, reviewed⟩ := review_ok.mp accepted.reviewed
    exact (archive_seals way accepted.extracted).mp reviewed.one
  · intro free
    obtain ⟨ops, out, blob, accepted, files⟩ := way_accepted Manifest way free
    have underway : Underway formats manifest (sealName group.groupId) blob out place :=
      ⟨Or.inl fresh, Or.inl absent⟩
    obtain ⟨answered, there⟩ := retry_repeats accepted underway
    exact ⟨answered, out, there, files⟩

end Way

/-! ### Samples -/

/-- Files for examples: texts and seals. -/
inductive SampleFile
  | text (content : Name)
  | original (value : Seal Name)

def sampleFormats : Formats SampleFile Name where
  size
    | .text content => content.length
    | .original _ => 1000
  content
    | .text content => content
    | .original _ => ['s']
  evidence inventory := inventory.items.flatMap fun item => item.1 ++ item.2.sha256
  write := .original
  read
    | .text _ => none
    | .original value => some value
  read_write _ _ same := (Option.some.inj same).symm

def sampleTree (path : Path)
    (proper : path ≠ [] ∧ ∀ name ∈ path, isComponent name = true) : Tree SampleFile where
  files := (∅ : OrderedTable Path SampleFile).push path (.text ['x'])
  proper item member := by
    rw [mem_singleton.mp member]
    exact proper
  apart one first two second _ := by
    rw [mem_singleton.mp first, mem_singleton.mp second]

def plainTree : Tree SampleFile := sampleTree [['e']] (by decide)

theorem plainTree_free : NoSealDirectory plainTree := by
  intro path blob found _ name head
  have member := OrderedTable.mem_items.mpr found
  obtain ⟨rfl, -⟩ := Prod.mk.inj (mem_singleton.mp member)
  obtain rfl := Option.some.inj head
  decide

/-- An output with a file in the directory `group-x.seal.json`. -/
def namedTree : Tree SampleFile :=
  sampleTree [['g', 'r', 'o', 'u', 'p', '-', 'x', '.', 's', 'e', 'a', 'l', '.', 'j', 's', 'o', 'n'], ['e']]
    (by decide)

def emptyPlace : Place SampleFile Name Unit := ⟨[], none, none⟩

/-- **The way of a sealed group.** For every archive that is published of a sealed output: a new import
reproduces the original files and the original seal if and only if no directory of the inventory has the
name of a seal, and then every import does after any imports that were stopped, unless a stop left the
receipt torn. An archive is only accepted if it covers its seal, and no import changes a destination that
exists. -/
theorem sealed_transport (formats : Formats Blob Digest) (manifest : Manifest) {tree sealed : Tree Blob}
    {groups : List Group} {closure : Closure} {group : Group} {entries : List (Entry Blob)}
    (written : writeSeals formats tree groups closure = .ok sealed) (member : group ∈ groups)
    (published : publishSealed formats sealed group.groupId = .ok entries) :
    (∀ place : Place Blob Digest Manifest, place.receipt = none → place.output = none →
      (Reproduces formats manifest sealed group.groupId entries place ↔ NoSealDirectory tree)) ∧
    (NoSealDirectory tree → ∀ place, (importSystem formats manifest entries).Reachable
      (cleanly formats manifest entries) place →
        Reproduces formats manifest sealed group.groupId entries place) ∧
    (∀ (place : Place Blob Digest Manifest) archive sealFile, place.output = none →
      (place.receiveSealed formats manifest archive).2 = .ok sealFile → Covers formats archive sealFile) ∧
    ∀ (place : Place Blob Digest Manifest) files other archive count, place.output = some files →
      (place.attempt formats other archive count).output = some files := by
  have way : Published formats tree groups closure sealed group entries := ⟨written, member, published⟩
  refine ⟨fun place => reproduces_iff way, fun free place reached => ?_,
    fun place archive sealFile absent answered => ?_, fun place files other archive count there => ?_⟩
  · obtain ⟨ops, out, blob, accepted, files⟩ := way_accepted Manifest way free
    obtain ⟨answered, there⟩ := retry_repeats accepted (underway_run accepted reached)
    exact ⟨answered, out, there, files⟩
  · unfold receiveSealed at answered
    rw [absent] at answered
    obtain ⟨ops, out, blob, accepted⟩ := accepted_of_answer answered
    exact accepted_covers accepted
  · rw [attempt_done there]
    exact there

/-- A plain output is published, and its import reproduces it. -/
theorem plain_group_transported :
    ∃ sealed entries, writeSeals sampleFormats plainTree [⟨0, ""⟩] ⟨true, true⟩ = .ok sealed ∧
      publishSealed sampleFormats sealed 0 = .ok entries ∧
      Reproduces sampleFormats () sealed 0 entries emptyPlace := by
  have ran : ∃ sealed entries, writeSeals sampleFormats plainTree [⟨0, ""⟩] ⟨true, true⟩ = .ok sealed ∧
      publishSealed sampleFormats sealed 0 = .ok entries := ⟨_, _, rfl, rfl⟩
  obtain ⟨sealed, entries, written, published⟩ := ran
  have transport := sealed_transport sampleFormats () written (mem_singleton_self _) published
  exact ⟨sealed, entries, written, published, (transport.1 emptyPlace rfl rfl).mpr plainTree_free⟩

/-- What is published of an output with a directory `group-x.seal.json` is not accepted, and an import that
was stopped before it had written its receipt is never accepted again. -/
theorem sealed_group_lost :
    (∃ sealed entries, writeSeals sampleFormats namedTree [⟨0, ""⟩] ⟨true, true⟩ = .ok sealed ∧
      publishSealed sampleFormats sealed 0 = .ok entries ∧
      (emptyPlace.receiveSealed sampleFormats () entries).2
        = .error "automatic artifact must contain one original seal") ∧
    ∃ sealed entries, writeSeals sampleFormats plainTree [⟨0, ""⟩] ⟨true, true⟩ = .ok sealed ∧
      publishSealed sampleFormats sealed 0 = .ok entries ∧
      (emptyPlace.receiveSealed sampleFormats () entries).2 = .ok (sealName 0) ∧
      ((emptyPlace.attempt sampleFormats () entries 4).receiveSealed sampleFormats () entries).2
        = .error "Expecting value" :=
  ⟨⟨_, _, rfl, rfl, rfl⟩, ⟨_, _, rfl, rfl, rfl, rfl⟩⟩

end TinyDSV41.Sealed
