/-
**The CPU supervisor.**

`run_supervisor` takes its phases one after the other. A phase waits for its policy lease, launches one
workflow and publishes the sealed group; what has been done is read off the files of the phase. The
process can be killed between any two of its steps and started again; a file that is created and not
yet filled is torn. One run holds the lock at a time.

* `cleanClosed` — the checks of a CPU closure.
* `Site.advance` — one step of the process: it reads or writes one file, launches or ends.
* `supervisorSystem` — the runs over kills and starts, with leases and outputs that change at any time.

The setup has passed `validate_config`: distinct artifact keys give every phase files of its own.
Leases are compared by the digest of their bytes. A call that raises ends the process, as does the end
of the last phase.
-/

import TinyDSV41.Lib.Transition
import TinyDSV41.Lib.Journal
import Mathlib.Algebra.Order.Field.Rat

namespace TinyDSV41.Supervisor

open Lib

/-! ### Files and evidence -/

/-- What the supervisor reads of `cpu-closure.json`. -/
structure Closure where
  coordinatorClosed : Bool
  cpuSpoolTerminal : Bool
  lifecycleFailures : List String
  quarantined : List String
  admissionStoppedReason : Option String
  reserved : List (String × List (String × ℚ))
deriving DecidableEq

/-- What the supervisor reads of a seal. -/
structure Seal where
  kind : String
  groupId : ℤ
  closure : Closure
deriving DecidableEq

/-- A policy lease: the fields that the supervisor reads, and the text of the others. -/
structure Lease where
  kind : String
  schemaVersion : ℤ
  policyVersion : ℕ
  groupSize : Option ℤ
  purpose : Option String
  rest : String
deriving DecidableEq

/-- An output directory: its seals by group, its closure and its lease, where they can be read. -/
structure Output where
  seal? : ℤ → Option Seal
  closure? : Option Closure
  lease? : Option Lease

def Closure.clean (closure : Closure) : Bool :=
  closure.coordinatorClosed && closure.cpuSpoolTerminal && closure.lifecycleFailures.isEmpty &&
    closure.quarantined.isEmpty && closure.admissionStoppedReason.isNone &&
    closure.reserved.all fun row => row.2.all fun entry => entry.2 == 0

/-- `clean_closed` with an expected lease: it does not raise. -/
def cleanClosed (output : Option Output) (groupId : ℤ) (expected : Lease) : Bool :=
  match output with
  | none => false
  | some output =>
    match output.seal? groupId, output.closure? with
    | some group, some closure =>
      group.kind == "terminalbench-sealed-group" && group.groupId == groupId &&
        group.closure == closure && closure.clean && output.lease? == some expected
    | _, _ => false

/-! ### The setup -/

/-- A phase of the setup; `size` and `purpose` are the shape of its template. -/
structure Phase where
  leaseKey : String
  sealKey : String
  policyVersion : ℕ
  groupId : ℕ
  size : ℤ
  purpose : Option String
  outputDir : String
  existingOutput : Option String
deriving DecidableEq

/-- The directory whose evidence a phase publishes. -/
def Phase.destination (phase : Phase) : String := phase.existingOutput.getD phase.outputDir

/-- A setup that `validate_config` admits. -/
structure Setup where
  phases : List Phase
  some_phase : phases ≠ []
  leaseKeys : (phases.map Phase.leaseKey).Nodup
  sealKeys : (phases.map Phase.sealKey).Nodup
  outputs : (phases.map Phase.outputDir).Nodup
  groupIds : (phases.map Phase.groupId).Nodup
deriving DecidableEq

/-- How the bytes of a lease are read: `read_json`, `PolicyRef` with `TrainingGenerationContract`, and
`pin`. -/
structure LeaseRules (Blob : Type) where
  read : Blob → Option Lease
  contract : Lease → Bool
  digest : Blob → String

section Leases

variable {Blob : Type} (rules : LeaseRules Blob)

/-- The checks of a delivered lease before it is copied. -/
def accepts (phase : Phase) (blob : Blob) : Bool :=
  match rules.read blob with
  | none => false
  | some lease => lease.kind == "terminalbench-policy-lease" && lease.schemaVersion == 1 &&
      rules.contract lease && lease.policyVersion == phase.policyVersion

/-- The checks of a delivered lease against the shape of the phase. -/
def suits (phase : Phase) (blob : Blob) : Bool :=
  match rules.read blob with
  | none => false
  | some lease => lease.groupSize.getD 2 == phase.size &&
      lease.purpose.getD "training" == phase.purpose.getD "training"

/-- `clean_closed` of the output of a phase, with the lease in some bytes. -/
def closedWith (outputs : String → Option Output) (phase : Phase) (blob : Blob) : Bool :=
  match rules.read blob with
  | none => false
  | some lease => cleanClosed (outputs phase.destination) phase.groupId lease

end Leases

/-! ### The process -/

/-- Where the process stands in a phase whose lease it holds. -/
inductive Stage
  /-- Before `lease.json`. -/
  | leasing
  /-- `lease.json` is created. -/
  | copying
  /-- Before the shape of the lease is checked. -/
  | shaping
  /-- Before it is looked up what has been done. -/
  | deciding
  /-- Before the model guard is obtained and its file created. -/
  | guarding
  | guardFile
  /-- Before `worker-config.json`. -/
  | configuring
  | configFile
  /-- Before `claim.json`. -/
  | claiming
  | claimFile
  /-- The claim is durable. -/
  | launching
  /-- The workflow runs. -/
  | running
  /-- The workflow failed with a seal. -/
  | excluding
  /-- Before `clean_closed`. -/
  | closing
  /-- Before `publish_sealed`. -/
  | publishing
  /-- Before `finished.json`. -/
  | finishing
  | finishFile
  /-- `finished.json` names the lease; before `clean_closed`. -/
  | verifying
  /-- Before `publish_sealed` of a finished phase. -/
  | republishing
deriving DecidableEq

inductive Place (Blob : Type)
  | opening
  | snapshotting
  | entering (phase : ℕ)
  | holding (phase : ℕ) (blob : Blob) (stage : Stage)

/-- The files of a phase under `supervisor`. -/
structure Control (Blob : Type) where
  lease : Option (File Blob)
  guard : Option (File Unit)
  config : Option (File Unit)
  claim : Option (File String)
  finished : Option (File String)

/-- What has happened to a phase, with the digest of the lease that was used. -/
inductive Event
  | launched (phase : ℕ) (digest : String)
  | closed (phase : ℕ) (digest : String)
  | published (phase : ℕ) (digest : String)
deriving DecidableEq

def Event.phase : Event → ℕ
  | .launched phase _ => phase
  | .closed phase _ => phase
  | .published phase _ => phase

def Event.digest : Event → String
  | .launched _ digest => digest
  | .closed _ digest => digest
  | .published _ digest => digest

def Event.launch? : Event → Option ℕ
  | .launched phase _ => some phase
  | _ => none

/-- The files, the relay, the process, and what has happened. -/
structure Site (Blob : Type) where
  snapshot : Option (File Setup)
  controls : ℕ → Control Blob
  delivered : String → Option Blob
  outputs : String → Option Output
  sealedGroups : String → Option String
  process : Option (Place Blob)
  deliveries : List (String × Blob)
  history : List Event

/-- What a step is told from outside: the wait for a lease is over, the guard qualifies, the workflow
can be started, its exit code, and what `publish_sealed` makes of the output. -/
structure Choice where
  expires : Bool
  qualifies : Bool
  spawns : Bool
  exitCode : ℤ
  artifact : Option String

namespace Site

variable {Blob : Type} (rules : LeaseRules Blob) (setup : Setup) (site : Site Blob)

def raises : Site Blob := { site with process := none }

def goto (place : Place Blob) : Site Blob := { site with process := some place }

def control (phase : ℕ) (change : Control Blob → Control Blob) : Site Blob :=
  { site with controls := Function.update site.controls phase (change (site.controls phase)) }

def record (event : Event) : Site Blob := { site with history := site.history ++ [event] }

/-- `publish_sealed`: the artifact is there under its key, and no other one. -/
def publish (phase : Phase) (artifact : Option String) : Option (Site Blob) :=
  match artifact with
  | none => none
  | some artifact =>
    match site.sealedGroups phase.sealKey with
    | some before => if before = artifact then some site else none
    | none => some { site with
        sealedGroups := Function.update site.sealedGroups phase.sealKey (some artifact) }

def perform (index : ℕ) (phase : Phase) (blob : Blob) (choice : Choice) : Stage → Site Blob
  | .leasing =>
    match (site.controls index).lease with
    | none => (site.control index fun files => { files with lease := some .torn }).goto
        (.holding index blob .copying)
    | some .torn => site.raises
    | some (.whole copy) =>
      if rules.digest copy = rules.digest blob then site.goto (.holding index blob .shaping)
      else site.raises
  | .copying => (site.control index fun files => { files with lease := some (.whole blob) }).goto
      (.holding index blob .shaping)
  | .shaping =>
    if suits rules phase blob then site.goto (.holding index blob .deciding) else site.raises
  | .deciding =>
    match (site.controls index).finished with
    | some .torn => site.raises
    | some (.whole digest) =>
      if digest = rules.digest blob then site.goto (.holding index blob .verifying) else site.raises
    | none =>
      if phase.existingOutput.isSome then site.goto (.holding index blob .closing)
      else if (site.controls index).claim.isSome ∨ (site.outputs phase.destination).isSome then
        site.raises
      else site.goto (.holding index blob .guarding)
  | .guarding =>
    if choice.qualifies ∧ (site.controls index).guard.isNone then
      (site.control index fun files => { files with guard := some .torn }).goto
        (.holding index blob .guardFile)
    else site.raises
  | .guardFile => (site.control index fun files => { files with guard := some (.whole ()) }).goto
      (.holding index blob .configuring)
  | .configuring =>
    if (site.controls index).config.isNone then
      (site.control index fun files => { files with config := some .torn }).goto
        (.holding index blob .configFile)
    else site.raises
  | .configFile => (site.control index fun files => { files with config := some (.whole ()) }).goto
      (.holding index blob .claiming)
  | .claiming =>
    if (site.controls index).claim.isNone then
      (site.control index fun files => { files with claim := some .torn }).goto
        (.holding index blob .claimFile)
    else site.raises
  | .claimFile =>
    (site.control index fun files => { files with claim := some (.whole (rules.digest blob)) }).goto
      (.holding index blob .launching)
  | .launching =>
    if choice.spawns then
      (site.record (.launched index (rules.digest blob))).goto (.holding index blob .running)
    else site.raises
  | .running =>
    if choice.exitCode = 0 then site.goto (.holding index blob .closing)
    else if ((site.outputs phase.destination).bind fun output => output.seal? phase.groupId).isSome then
      site.goto (.holding index blob .excluding)
    else site.raises
  | .excluding => ((site.publish phase choice.artifact).getD site).raises
  | .closing =>
    if closedWith rules site.outputs phase blob then
      (site.record (.closed index (rules.digest blob))).goto (.holding index blob .publishing)
    else site.raises
  | .publishing =>
    match site.publish phase choice.artifact with
    | none => site.raises
    | some site => (site.record (.published index (rules.digest blob))).goto
        (.holding index blob .finishing)
  | .finishing =>
    match (site.controls index).finished with
    | none => (site.control index fun files => { files with finished := some .torn }).goto
        (.holding index blob .finishFile)
    | some _ => site.raises
  | .finishFile =>
    (site.control index fun files => { files with finished := some (.whole (rules.digest blob)) }).goto
      (.entering (index + 1))
  | .verifying =>
    if closedWith rules site.outputs phase blob then
      (site.record (.closed index (rules.digest blob))).goto (.holding index blob .republishing)
    else site.raises
  | .republishing =>
    match site.publish phase choice.artifact with
    | none => site.raises
    | some site => (site.record (.published index (rules.digest blob))).goto (.entering (index + 1))

/-- One step of the process; none while it waits for a lease. -/
def advance (choice : Choice) : Option (Site Blob) :=
  match site.process with
  | none => none
  | some .opening =>
    match site.snapshot with
    | none => some ({ site with snapshot := some .torn }.goto .snapshotting)
    | some .torn => some site.raises
    | some (.whole before) => some (if before = setup then site.goto (.entering 0) else site.raises)
  | some .snapshotting => some ({ site with snapshot := some (.whole setup) }.goto (.entering 0))
  | some (.entering index) =>
    match setup.phases[index]? with
    | none => some site.raises
    | some phase =>
      -- `mkdir` of the control directory, where the setup's own file may stand.
      if phase.leaseKey = "config.json" then some site.raises
      else match site.delivered phase.leaseKey with
        | none => if choice.expires then some site.raises else none
        | some blob =>
          some (if accepts rules phase blob then site.goto (.holding index blob .leasing)
            else site.raises)
  | some (.holding index blob stage) =>
    setup.phases[index]?.map fun phase => site.perform rules index phase blob choice stage

end Site

/-- A lease is delivered; the workflow, or anybody else, changes an output; the process starts, makes a
step or is killed. -/
inductive Action (Blob : Type)
  | deliver (key : String) (blob : Blob)
  | output (directory : String) (output : Option Output)
  | start
  | advance (choice : Choice)
  | kill

def Site.step {Blob : Type} (rules : LeaseRules Blob) (setup : Setup)
    (site : Site Blob) : Action Blob → Option (Site Blob)
  | .deliver key blob => some { site with
      delivered := Function.update site.delivered key (some blob)
      deliveries := site.deliveries ++ [(key, blob)] }
  | .output directory output => some { site with
      outputs := Function.update site.outputs directory output }
  | .start => if site.process.isNone then some (site.goto .opening) else none
  | .advance choice => site.advance rules setup choice
  | .kill => if site.process.isSome then some site.raises else none

/-- Nothing has been done yet; outputs of earlier workflows may be there. -/
def Site.fresh {Blob : Type} (outputs : String → Option Output) : Site Blob where
  snapshot := none
  controls _ := ⟨none, none, none, none, none⟩
  delivered _ := none
  outputs := outputs
  sealedGroups _ := none
  process := none
  deliveries := []
  history := []

/-- The runs of the supervisor with one setup. -/
def supervisorSystem {Blob : Type} (rules : LeaseRules Blob) (setup : Setup) :
    System (Site Blob) (Action Blob) where
  initial site := ∃ outputs, site = .fresh outputs
  step site action := site.step rules setup action

end TinyDSV41.Supervisor
