/-
**Records through dictionaries and texts.**

* `ExactPolicy`, `ExactTurn`, `ExactTrajectory`, `ExactGroup` — exactly the fields of a record, at each level.
* `records_kept` — records stay the same through dictionaries and texts.
* `vast_refused` — an integer with too many digits is not written.
-/

import TinyDSV41.Records.Arranged

namespace TinyDSV41.Records

open List Lib TrainingTrajectory Record

variable {runtime : Runtime}

/-! ### Exact fields -/

structure ExactPolicy (value : Json) : Prop where
  fields : value.hasKeys policyFields = true
  sampling : (field value "sampling").isObject = true → (field value "sampling").hasKeys samplingFields = true

structure ExactTurn (value : Json) : Prop where
  fields : value.hasKeys turnFields = true
  policy : ExactPolicy (field value "policy")

structure ExactTrajectory (value : Json) : Prop where
  fields : value.hasKeys trajectoryFields = true
  turns : ∃ items, field value "turns" = .list items ∧ ∀ item ∈ items, ExactTurn item

structure ExactGroup (value : Json) : Prop where
  fields : value.hasKeys groupFields = true
  policy : ExactPolicy (field value "policy")
  samples : ∃ items, field value "samples" = .list items ∧ ∀ item ∈ items, ExactTrajectory item

/-- Exactly the fields of a type, at each level. -/
def Exact : Kind → Json → Prop
  | .policy => ExactPolicy
  | .turn => ExactTurn
  | .trajectory => ExactTrajectory
  | .group => ExactGroup

variable {value : Json}

theorem hasKeys_object_of {names : List String} (keys : value.hasKeys names = true) :
    value.isObject = true := by
  unfold Json.hasKeys at keys
  rw [Bool.and_eq_true, Bool.and_eq_true] at keys
  exact keys.1.1

theorem iterate_objects {items : List Json} (ran : iterate value = .ok items) (some_ : items ≠ [])
    (objects : ∀ item ∈ items, item.isObject = true) : value = .list items := by
  obtain ⟨item, rest, rfl⟩ := exists_cons_of_ne_nil some_
  have first := objects item mem_cons_self
  cases value with
  | list others =>
    cases ran
    rfl
  | str value =>
    have same : value.map (fun code => Json.str [code]) = item :: rest := Except.ok.inj ran
    obtain ⟨code, _, -, rfl, -⟩ := map_eq_cons_iff.mp same
    cases first
  | object entries =>
    have same : entries.map (fun entry => Json.str entry.1) = item :: rest := Except.ok.inj ran
    obtain ⟨entry, _, -, rfl, -⟩ := map_eq_cons_iff.mp same
    cases first
  | _ => cases ran

theorem PolicyRef.fromDict_exact {policy : PolicyRef}
    (built : PolicyRef.fromDict runtime value = .ok policy) : ExactPolicy value := by
  obtain ⟨_, complete, built⟩ := bind_eq_ok.mp built
  obtain ⟨-, -, pairs, entries, ⟨paired, keyed_⟩, ways, -⟩ := construct_ok.mp built
  refine ⟨fields_ok.mp complete, fun isObject => ?_⟩
  cases shape : field value "sampling" with
  | object others =>
    rw [shape] at paired
    cases paired
    cases (keyed_object others).symm.trans keyed_
    exact ways
  | _ =>
    rw [shape] at isObject
    cases isObject

theorem TurnTrace.fromDict_exact {turn : TurnTrace}
    (built : TurnTrace.fromDict runtime value = .ok turn) : ExactTurn value := by
  obtain ⟨_, complete, built⟩ := bind_eq_ok.mp built
  obtain ⟨policy, isPolicy, -⟩ := bind_eq_ok.mp built
  exact ⟨fields_ok.mp complete, PolicyRef.fromDict_exact isPolicy⟩

theorem TrainingTrajectory.fromDict_exact {trajectory : TrainingTrajectory}
    (built : fromDict runtime value = .ok trajectory) : ExactTrajectory value := by
  obtain ⟨_, complete, built⟩ := bind_eq_ok.mp built
  obtain ⟨items, iterated, built⟩ := bind_eq_ok.mp built
  obtain ⟨turns, each, built⟩ := bind_eq_ok.mp built
  obtain ⟨checked, ⟨-, -, -, -, -, rfl⟩, -⟩ := construct_ok.mp built
  have exact_ : ∀ item ∈ items, ExactTurn item := by
    intro item mem
    obtain ⟨turn, -, found⟩ := forall₂_left (mapM_eq_ok.mp each) mem
    exact TurnTrace.fromDict_exact found
  have some_ : items ≠ [] := fun none_ =>
    checked.turns (length_eq_zero_iff.mp ((mapM_eq_ok.mp each).length_eq.symm.trans (none_ ▸ rfl)))
  exact ⟨fields_ok.mp complete, items,
    iterate_objects iterated some_ fun item mem => hasKeys_object_of (exact_ item mem).fields, exact_⟩

theorem TrainingGroup.fromDict_exact {group : TrainingGroup}
    (built : TrainingGroup.fromDict runtime value = .ok group) : ExactGroup value := by
  obtain ⟨_, complete, built⟩ := bind_eq_ok.mp built
  obtain ⟨policy, isPolicy, built⟩ := bind_eq_ok.mp built
  obtain ⟨items, iterated, built⟩ := bind_eq_ok.mp built
  obtain ⟨samples, each, built⟩ := bind_eq_ok.mp built
  obtain ⟨checked, -, -, -, -, -, -, sorted⟩ := construct_ok built
  have exact_ : ∀ item ∈ items, ExactTrajectory item := by
    intro item mem
    obtain ⟨sample, -, found⟩ := forall₂_left (mapM_eq_ok.mp each) mem
    exact TrainingTrajectory.fromDict_exact found
  have some_ : items ≠ [] := by
    rintro rfl
    have count := (mapM_eq_ok.mp each).length_eq.trans ((inOrder_perm samples).length_eq.symm.trans (sorted ▸ checked.complete))
    have least := checked.size
    exact absurd count (by rw [length_nil]; omega)
  exact ⟨fields_ok.mp complete, PolicyRef.fromDict_exact isPolicy, items,
    iterate_objects iterated some_ fun item mem => hasKeys_object_of (exact_ item mem).fields, exact_⟩

/-! ### Texts -/

variable {record : Record}

namespace Record

/-- What holds of a record that is built. -/
def Valid (runtime : Runtime) : Record → Prop
  | .policy record => record.Valid
  | .turn record => record.Valid
  | .trajectory record => record.Valid runtime
  | .group record => record.Valid runtime

def arranged (style : Style) : Record → Record
  | .policy record => .policy (record.arranged style)
  | .turn record => .turn (record.arranged style)
  | .trajectory record => .trajectory (record.arranged style)
  | .group record => .group (record.arranged style)

section

variable (valid : record.Valid runtime)
include valid

theorem toDict_distinct : record.toDict.distinct = true := by
  cases record with
  | policy record => exact PolicyRef.toDict_distinct valid
  | turn record => exact TurnTrace.toDict_distinct valid
  | trajectory record => exact toDict_distinct valid
  | group record => exact TrainingGroup.toDict_distinct valid

theorem toDict_finite : record.toDict.finite = true := by
  cases record with
  | policy record | turn record => exact record.toDict_finite
  | trajectory record => exact toDict_finite valid
  | group record => exact TrainingGroup.toDict_finite valid

theorem fromDict_arranged (style : Style) :
    fromDict runtime record.kind (record.toDict.arranged style) = .ok (record.arranged style) := by
  cases record with
  | policy record => exact map_eq_ok.mpr ⟨_, PolicyRef.fromDict_arranged valid style, rfl⟩
  | turn record => exact map_eq_ok.mpr ⟨_, TurnTrace.fromDict_arranged valid style, rfl⟩
  | trajectory record => exact map_eq_ok.mpr ⟨_, fromDict_arranged valid style, rfl⟩
  | group record => exact map_eq_ok.mpr ⟨_, TrainingGroup.fromDict_arranged valid style, rfl⟩

end

theorem fromDict_loaded {kind : Kind} (loaded : Loaded runtime value)
    (built : fromDict runtime kind value = .ok record) :
    record.kind = kind ∧ Exact kind value ∧ record.Valid runtime ∧ record.toDict.Readable runtime.numbers.strict := by
  cases kind with obtain ⟨record, read, rfl⟩ := map_eq_ok.mp built
  | policy =>
    exact ⟨rfl, PolicyRef.fromDict_exact read, PolicyRef.fromDict_loaded loaded read⟩
  | turn =>
    exact ⟨rfl, TurnTrace.fromDict_exact read, TurnTrace.fromDict_loaded loaded read⟩
  | trajectory =>
    exact ⟨rfl, TrainingTrajectory.fromDict_exact read, fromDict_loaded loaded read⟩
  | group =>
    exact ⟨rfl, TrainingGroup.fromDict_exact read, TrainingGroup.fromDict_loaded loaded read⟩

theorem toDict_arranged (record : Record) (style : Style) :
    (record.arranged style).toDict.arranged style = record.toDict.arranged style := by
  cases record with
  | policy record | turn record | trajectory record | group record => exact record.toDict_arranged style

theorem arranged_kind (record : Record) (style : Style) : (record.arranged style).kind = record.kind := by
  cases record <;> rfl

theorem arranged_unsorted {style : Style} (unsorted : style.sorted = false) (record : Record) :
    record.arranged style = record := by
  cases record with
  | policy record => exact congrArg policy (PolicyRef.arranged_unsorted unsorted record)
  | turn record => exact congrArg turn (TurnTrace.arranged_unsorted unsorted record)
  | trajectory record => exact congrArg trajectory (TrainingTrajectory.arranged_unsorted unsorted record)
  | group record => exact congrArg group (TrainingGroup.arranged_unsorted unsorted record)

/-- **A record is built again of its dictionary.** -/
theorem fromDict_toDict (valid : record.Valid runtime) :
    fromDict runtime record.kind record.toDict = .ok record := by
  have built := fromDict_arranged valid Style.spaced
  rwa [Lib.arranged_unsorted rfl, arranged_unsorted rfl] at built

theorem payload_distinct (valid : record.Valid runtime) : record.payload.distinct = true := by
  have keys : ["schema_version", "kind", "record"].Nodup := by decide
  refine distinct_literal keys ?_
  exact ⟨rfl, rfl, toDict_distinct valid⟩

theorem payload_readable {numbers : Numbers} (one : numbers.Fits 1)
    (readable : record.toDict.Readable numbers) : record.payload.Readable numbers := by
  have names : ∀ name ∈ payloadFields, Plain (text name) := by decide
  refine literal_readable names (forall_iff_forall_mem.mp ?_)
  have kind : ∀ kind : Kind, Plain (text kind.name) := by
    intro kind
    cases kind <;> decide
  exact ⟨one, kind record.kind, readable⟩

end Record

theorem recordKind_name (kind : Kind) : recordKind (literal kind.name) = .ok kind := by
  cases kind <;> decide

/-- **A record is loaded of its text**, with sorted keys. -/
theorem loads_payload (valid : record.Valid runtime)
    (readable : record.payload.Readable runtime.numbers.strict) :
    loads runtime (codes (Lib.dumps .compact record.payload)) = .ok (record.arranged .compact) := by
  have distinct := payload_distinct valid
  have complete : record.payload.hasKeys payloadFields = true := hasKeys_object (List.Perm.refl payloadFields)
  unfold loads
  rw [strictLoads_dumps compact_separates readable distinct]
  have version : field record.payload "schema_version" = .int 1 := by simp [payload]
  have kind : field record.payload "kind" = literal record.kind.name := by simp [payload]
  have inner : field record.payload "record" = record.toDict := by simp [payload]
  refine ok_bind (fields_ok.mpr ((hasKeys_arranged _ _).trans complete)) ?_
  simp only [field_arranged distinct, version, kind, inner]
  refine ok_bind (require_ok rfl) (ok_bind (recordKind_name _) ?_)
  exact fromDict_arranged valid .compact

theorem dumps_arranged_record (record : Record) : dumps runtime (record.arranged .compact) = dumps runtime record := by
  have same : (record.arranged .compact).payload.arranged .compact = record.payload.arranged .compact := by
    refine arranged_literal ?_
    simp only [map_cons, map_nil, record.toDict_arranged, record.arranged_kind]
  unfold dumps
  rw [← encode_arranged, same, encode_arranged]

theorem strictLoads_loaded {input : Text} (scalar : Scalar input)
    (found : strictLoads runtime.numbers input = some value) : Loaded runtime value := by
  obtain ⟨found, distinct⟩ := Option.filter_eq_some_iff.mp found
  have readable := loads_readable scalar found
  exact ⟨readable, distinct⟩

theorem dumps_iff (valid : record.Valid runtime) :
    (∃ output, dumps runtime record = some output) ↔ record.toDict.fits runtime.numbers = true := by
  have finite : record.payload.finite = true := by
    refine literal_finite ?_
    exact ⟨rfl, rfl, toDict_finite valid⟩
  have one : runtime.numbers.Fits 1 := fits_one
  have fits : record.payload.fits runtime.numbers = record.toDict.fits runtime.numbers := by
    show (decide (runtime.numbers.Fits 1) && (true && (record.toDict.fits runtime.numbers && true))) = _
    rw [decide_eq_true one, Bool.true_and, Bool.true_and, Bool.and_true]
  constructor
  · rintro ⟨output, found⟩
    exact fits ▸ (encode_some.mp found).1.2
  · exact fun all => ⟨_, encode_some.mpr ⟨⟨finite, fits.trans all⟩, rfl⟩⟩

theorem loads_valid {input : Text} (scalar : Scalar input) (ran : loads runtime input = .ok record) :
    (∃ value, Lib.loads runtime.numbers.strict input = some value ∧ value.distinct = true ∧
      value.hasKeys payloadFields = true ∧ Exact record.kind (field value "record")) ∧
    record.Valid runtime ∧ record.toDict.Readable runtime.numbers.strict := by
  unfold loads at ran
  split at ran
  · cases ran
  · rename_i value found
    obtain ⟨_, complete, ran⟩ := bind_eq_ok.mp ran
    obtain ⟨_, -, ran⟩ := bind_eq_ok.mp ran
    obtain ⟨kind, -, ran⟩ := bind_eq_ok.mp ran
    have loaded := strictLoads_loaded scalar found
    obtain ⟨rfl, exact_, valid, readable⟩ := fromDict_loaded (loaded.field "record") ran
    exact ⟨⟨value, (Option.filter_eq_some_iff.mp found).1, loaded.2, fields_ok.mp complete, exact_⟩, valid, readable⟩

/-- **Records stay the same through dictionaries and texts.** A record is built again of its dictionary, and, where
its strings are readable and its integers have few enough digits, of its text, with sorted keys. What is loaded has no
key twice and exactly the fields of the records at each level, and its text is loaded and written as itself. -/
theorem records_kept (runtime : Runtime) :
    (∀ record : Record, record.Valid runtime →
      fromDict runtime record.kind record.toDict = .ok record ∧
      (record.toDict.Readable runtime.numbers.free →
        ((∃ output, dumps runtime record = some output) ↔ record.toDict.fits runtime.numbers = true) ∧
        ∀ output, dumps runtime record = some output →
          loads runtime output = .ok (record.arranged .compact) ∧
            (record.arranged .compact).toDict.Same record.toDict)) ∧
    ∀ input record, Scalar input → loads runtime input = .ok record →
      (∃ value, Lib.loads runtime.numbers.strict input = some value ∧ value.distinct = true ∧
        value.hasKeys payloadFields = true ∧ Exact record.kind (field value "record")) ∧
      record.Valid runtime ∧
      ∃ output again, dumps runtime record = some output ∧ loads runtime output = .ok again ∧
        dumps runtime again = some output := by
  refine ⟨fun record valid => ⟨fromDict_toDict valid, fun readable => ⟨dumps_iff valid, fun output found => ?_⟩⟩,
    fun input record scalar ran => ?_⟩
  · have whole : record.payload.Value runtime.numbers :=
      ⟨payload_readable (Or.inl rfl) readable, payload_distinct valid⟩
    obtain ⟨-, rfl⟩ := encode_some.mp found
    exact ⟨loads_payload valid (encode_readable whole found), record.toDict_arranged .compact⟩
  · obtain ⟨exact_, valid, readable⟩ := loads_valid scalar ran
    obtain ⟨output, found⟩ := (dumps_iff valid).mpr (readable_strict readable).2
    have written : record.payload.Readable runtime.numbers.strict :=
      payload_readable fits_one readable
    obtain ⟨-, rfl⟩ := encode_some.mp found
    exact ⟨exact_, valid, _, _, found, loads_payload valid written, (dumps_arranged_record record).trans found⟩

/-! ### A record that is not written -/

theorem decimalValue_one : decimalValue "1.0".toList = 1 := by decide +kernel

/-- Numbers that are read as they stand, with at most 4300 digits in an integer. -/
def plainRuntime : Runtime where
  numbers := Numbers.decimal 4300 false
  ofInt _ := none
  sha256 _ := []
  ofInt_float found := by cases found
  one := congrArg (Json.float · "1.0".toList) decimalValue_one

/-- A policy whose version has 4301 digits. -/
def vast : PolicyRef := ⟨10 ^ 4300, replicate 64 48, text "run", [], ⟨1, "1.0".toList⟩⟩

theorem vast_valid : vast.Valid where
  digest := by decide
  lineage := by decide
  keys := nodup_nil
  named := nofun
  warm := show (0 : ℚ) < 1 from one_pos

theorem vast_readable (version : ℕ) :
    ({ vast with version := version } : PolicyRef).toDict.Readable plainRuntime.numbers.free := by
  have names : ∀ name ∈ policyFields, Plain (text name) := by decide
  have ways : ∀ name ∈ samplingFields, Plain (text name) := by decide
  have digest : Plain vast.digest := by decide
  have lineage : Plain vast.lineage := by decide
  refine literal_readable names ?_
  simp only [forall_mem_cons, not_mem_nil, false_implies, implies_true, and_true]
  refine ⟨Or.inl rfl, digest, lineage, trivial, literal_readable ways ?_⟩
  simp only [forall_mem_cons, not_mem_nil, false_implies, implies_true, and_true]
  exact ⟨⟨floatLiteral_one, plainRuntime.one⟩, ⟨floatLiteral_one, plainRuntime.one⟩, Or.inl rfl⟩

theorem PolicyRef.version_fits {policy : PolicyRef} {numbers : Numbers} (fits : policy.toDict.fits numbers = true) :
    numbers.Fits policy.version := by
  have all := fitsEntries_iff.mp fits (text "version", .int policy.version) mem_cons_self
  exact of_decide_eq_true all

/-- The version has too many digits: the policy is built, and not written. -/
theorem vast_refused : vast.Valid ∧ vast.toDict.Readable plainRuntime.numbers.free ∧
    PolicyRef.fromDict plainRuntime vast.toDict = .ok vast ∧ dumps plainRuntime (.policy vast) = none := by
  have builds : ∀ style, PolicyRef.fromDict plainRuntime (vast.toDict.arranged style) = .ok (vast.arranged style) :=
    PolicyRef.fromDict_arranged vast_valid
  have built : PolicyRef.fromDict plainRuntime vast.toDict = .ok vast := by
    have built := builds Style.spaced
    rwa [Lib.arranged_unsorted rfl, PolicyRef.arranged_unsorted rfl] at built
  refine ⟨vast_valid, vast_readable vast.version, built, ?_⟩
  · have version : vast.version = 10 ^ plainRuntime.numbers.digits := by
      dsimp only [vast, plainRuntime, Numbers.decimal]
    have less : ∀ {version digits : ℕ}, 0 < digits → (Nat.toDigits 10 version).length ≤ digits →
        version < 10 ^ digits := fun some_ => (Nat.length_toDigits_le_iff (by decide) some_).mp
    by_contra written
    obtain ⟨output, found⟩ := Option.ne_none_iff_exists'.mp written
    have valid : (policy vast).Valid plainRuntime := vast_valid
    rcases PolicyRef.version_fits ((dumps_iff valid).mp ⟨output, found⟩) with free | short
    · cases free
    · exact absurd (less (by decide) short) (Nat.not_lt_of_ge version.ge)

/-- The policy with a version of one digit. -/
def early : PolicyRef := { vast with version := 7 }

theorem records_kept_early : ∃ output, dumps plainRuntime (.policy early) = some output ∧
    fromDict plainRuntime .policy early.toDict = .ok (.policy early) ∧
    loads plainRuntime output = .ok (.policy early) := by
  have valid : (policy early).Valid plainRuntime :=
    ⟨vast_valid.digest, vast_valid.lineage, vast_valid.keys, vast_valid.named, vast_valid.warm⟩
  obtain ⟨built, kept⟩ := (records_kept plainRuntime).1 (.policy early) valid
  obtain ⟨written, loaded⟩ := kept (vast_readable 7)
  obtain ⟨output, found⟩ := written.mpr (by decide)
  have again := (loaded output found).1
  exact ⟨output, found, built, again⟩

end TinyDSV41.Records
