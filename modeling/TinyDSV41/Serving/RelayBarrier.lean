/-
**The browser relay policy controller: a barrier around every policy update.**

`BrowserRelayPolicyController` stops the shim, pauses the controller behind it, and waits until the relay
has delivered every request that the shim has reserved; only then it lets a policy be activated. Its
operations are coroutines of one event loop: each runs alone up to its next `await`, and nothing but a
flag keeps them apart.

* `OperationPlace` — where an operation awaits the shim, the controller or the relay.
* `Barrier.step`, `barrierSystem` — the operations, the requests behind the shim and the records of the
  relay.

The answers of the relay are its records: what it lists as acknowledged or finished is so. Its counts
are looked at once more for each `poll` and need no place in the state.
-/

import TinyDSV41.Serving.Loopback

namespace TinyDSV41.Serving

open Lib
open Relay (Id)

variable {Payload : Type}

/-- What can be asked of the controller. -/
inductive Operation
  | start (artifact : Artifact)
  | pause
  | activate (artifact : Artifact)
  | resume
  | close

inductive OperationPlace
  /-- `start` is about to start the controller. -/
  | starting (artifact : Artifact)
  | opening
  /-- The controller is started, and the shim is about to be. -/
  | opened
  /-- `pause` is about to quiesce the shim. -/
  | pausing
  | quiescing
  /-- The shim is quiesced, with these requests, and the controller is about to be paused. -/
  | quiesced (identities : List Id)
  | draining (identities : List Id)
  /-- The controller is paused; `wait` asks for the status of the relay. -/
  | waiting (identities : List Id)
  /-- `wait` reads the records that are left. -/
  | checking (identities left : List Id)
  /-- `wait` has returned its proof. -/
  | proven (identities : List Id)
  /-- `activate` has passed its check, and is about to ask the controller. -/
  | admitted (artifact : Artifact)
  | activating
  | activated
  /-- `resume` has passed its check. -/
  | resuming
  | resumed
  /-- The shim is about to be closed, and the controller behind it. -/
  | quitting
  | emptying
  | emptied
  | closing
  | halting
  | over

def OperationPlace.busy : OperationPlace → Bool
  | .quitting | .emptying | .emptied | .closing | .halting | .over => false
  | _ => true

/-- What has happened to the operations. -/
inductive BarrierEvent
  /-- `activate` or `resume` was refused by its check. -/
  | refused
  /-- A pause, or an activation that was not refused, has raised an exception. -/
  | failed
  /-- The controller starts to activate a policy. -/
  | activates
  | activated
  | resumed
deriving DecidableEq

/-- The shim with its controller, the flags, the records of the relay and the operations. -/
structure Barrier (Payload : Type) where
  loopback : Loopback Payload
  paused : Bool
  error : Bool
  finished : List Id
  acknowledged : List Id
  operations : List OperationPlace
  log : List BarrierEvent

def Barrier.fresh (Payload : Type) : Barrier Payload :=
  ⟨Loopback.fresh Payload, false, false, [], [], [], []⟩

/-- A step of the requests, of the relay or of an operation. -/
inductive BarrierAction (Payload : Type)
  | loopback (action : LoopbackAction Payload)
  | finish (id : Id)
  | acknowledge (id : Id)
  | begin (operation : Operation)
  | advance (index : ℕ)
  /-- A step of the controller's operation that an operation waits for. -/
  | inner (index : ℕ) (action : ServingAction Payload)
  /-- The counts of the relay are zero. -/
  | poll (index : ℕ)
  /-- An exception or a cancellation. -/
  | fail (index : ℕ)

/-- The steps of the controller's operation that an operation waits for at its place. -/
def OperationPlace.awaits : OperationPlace → ServingAction Payload → Bool
  | .opening, .check | .opening, .loaded _ _ | .opening, .settle _ => true
  | .activating, .check | .activating, .loaded _ _ | .activating, .settle _ => true
  | .draining _, .drain | .draining _, .paused _ => true
  | .halting, .stop _ | .halting, .stopped _ => true
  | _, _ => false

/-- The step lets the controller's operation return. -/
def ServingAction.returns : ServingAction Payload → Bool
  | .settle cancelled | .paused cancelled => !cancelled
  | _ => false

/-- The controller has no operation in progress. -/
def ServingControl.isIdle : ServingControl → Bool
  | .idle => true
  | _ => false

/-- `activate` and `resume` are refused by their check. -/
def Barrier.refuses (barrier : Barrier Payload) : Operation → Bool
  | .activate _ | .resume => !barrier.paused || barrier.error
  | _ => false

namespace Barrier

variable (rules : ServingRules Payload) (barrier : Barrier Payload)

def move (index : ℕ) (place : OperationPlace) : List OperationPlace := barrier.operations.set index place

def latch (index : ℕ) : Barrier Payload := { barrier with
  error := true
  operations := barrier.move index .over
  log := barrier.log ++ [.failed] }

def quit (index : ℕ) (place : OperationPlace) : Barrier Payload :=
  { barrier with operations := barrier.move index place }

def setPhase (phase : ShimPhase) : Loopback Payload := { barrier.loopback with phase := phase }

def setServer (server : Server Payload) : Loopback Payload := { barrier.loopback with server := server }

/-- An operation begins, and runs to its first `await`. -/
def enter (operation : Operation) : Barrier Payload :=
  if barrier.refuses operation = true then { barrier with log := barrier.log ++ [.refused] } else
  match operation with
  | .start artifact => { barrier with operations := barrier.operations ++ [.starting artifact] }
  | .pause => { barrier with paused := false, operations := barrier.operations ++ [.pausing] }
  | .activate artifact =>
    if barrier.loopback.active = 0 then { barrier with
      loopback := barrier.setPhase .loading
      paused := false
      operations := barrier.operations ++ [.admitted artifact] }
    else { barrier with paused := false, log := barrier.log ++ [.failed] }
  | .resume => { barrier with operations := barrier.operations ++ [.resuming] }
  | .close => { barrier with operations := barrier.operations ++ [.quitting] }

def ask (action : ServingAction Payload) (accepted : Loopback Payload → Barrier Payload)
    (refused : Barrier Payload) : Option (Barrier Payload) :=
  if barrier.loopback.server.control.isIdle = true then
    some (match barrier.loopback.server.controlStep rules action with
      | some server => accepted (barrier.setServer server)
      | none => refused)
  else none

def advance (index : ℕ) : OperationPlace → Option (Barrier Payload)
  | .starting artifact => barrier.ask rules (.start artifact)
      (fun loopback => { barrier with loopback := loopback, operations := barrier.move index .opening })
      (barrier.quit index .over)
  | .opened =>
    if barrier.loopback.phase = .new then some { barrier with
      loopback := barrier.setPhase .running
      operations := barrier.move index .over }
    else some (barrier.quit index .quitting)
  | .pausing => some { barrier with
      loopback := barrier.setPhase .quiescing
      operations := barrier.move index .quiescing }
  | .quiescing =>
    if barrier.loopback.active = 0 then
      some (barrier.quit index (.quiesced barrier.loopback.requests))
    else none
  | .quiesced identities => barrier.ask rules .pause
      (fun loopback => { barrier with
        loopback := loopback
        operations := barrier.move index (.draining identities) })
      (barrier.latch index)
  | .checking identities (identity :: left) =>
    if identity ∈ barrier.finished ∧ identity ∈ barrier.acknowledged then
      some (barrier.quit index (.checking identities left))
    else some (barrier.latch index)
  | .checking identities [] => some (barrier.quit index (.proven identities))
  | .proven _ =>
    if barrier.loopback.active = 0 then some { barrier with
      loopback := barrier.setPhase .paused
      paused := true
      operations := barrier.move index .over }
    else some (barrier.latch index)
  | .admitted artifact => barrier.ask rules (.activate artifact)
      (fun loopback => { barrier with
        loopback := loopback
        operations := barrier.move index .activating
        log := barrier.log ++ [.activates] })
      (barrier.latch index)
  | .activated =>
    if barrier.loopback.active = 0 then some { barrier with
      loopback := barrier.setPhase .paused
      paused := true
      operations := barrier.move index .over
      log := barrier.log ++ [.activated] }
    else some (barrier.latch index)
  | .resuming => barrier.ask rules .resume
      (fun loopback => { barrier with loopback := loopback, operations := barrier.move index .resumed })
      (barrier.quit index .over)
  | .resumed =>
    if barrier.loopback.active = 0 then some { barrier with
      loopback := barrier.setPhase .running
      paused := false
      operations := barrier.move index .over
      log := barrier.log ++ [.resumed] }
    else some (barrier.quit index .over)
  | .quitting => some { barrier with
      loopback := barrier.setPhase .quiescing
      operations := barrier.move index .emptying }
  | .emptying =>
    if barrier.loopback.active = 0 then some (barrier.quit index .emptied) else none
  | .emptied =>
    if barrier.loopback.active = 0 then some { barrier with
      loopback := barrier.setPhase .closed
      operations := barrier.move index .closing }
    else none
  | .closing => barrier.ask rules .close
      (fun loopback => { barrier with loopback := loopback, operations := barrier.move index .halting })
      (barrier.quit index .over)
  | _ => none

/-- The controller's operation goes on; when it has ended, the operation behind it does. -/
def await (index : ℕ) (place : OperationPlace) (action : ServingAction Payload) :
    Option (Barrier Payload) :=
  if place.awaits action = true then
    (barrier.loopback.server.controlStep rules action).map fun server =>
      let next := { barrier with loopback := barrier.setServer server }
      if server.control.isIdle = true then
        match place, action.returns with
        | .opening, true => next.quit index .opened
        | .draining identities, true => next.quit index (.waiting identities)
        | .activating, true => next.quit index .activated
        | .draining _, false | .activating, false => next.latch index
        | _, _ => next.quit index .over
      else next
  else none

/-- An exception or a cancellation at an `await`. -/
def interrupt (index : ℕ) : OperationPlace → Option (Barrier Payload)
  | .quiesced _ | .waiting _ | .checking _ _ | .proven _ | .admitted _ => some (barrier.latch index)
  | .opened => some (barrier.quit index .quitting)
  | .starting _ | .resuming | .closing => some (barrier.quit index .over)
  | _ => none

def step (action : BarrierAction Payload) : Option (Barrier Payload) :=
  match action with
  | .loopback action =>
    if action.ofRequest = true then
      (barrier.loopback.step rules action).map fun loopback => { barrier with loopback := loopback }
    else none
  | .finish id => some { barrier with finished := barrier.finished ++ [id] }
  | .acknowledge id => some { barrier with acknowledged := barrier.acknowledged ++ [id] }
  | .begin operation => some (barrier.enter operation)
  | .advance index => (barrier.operations[index]?).bind (barrier.advance rules index)
  | .inner index action =>
    (barrier.operations[index]?).bind fun place => barrier.await rules index place action
  | .poll index =>
    match barrier.operations[index]? with
    | some (.waiting identities) =>
      if identities ⊆ barrier.acknowledged then
        some (barrier.quit index (.checking identities identities))
      else none
    | _ => none
  | .fail index => (barrier.operations[index]?).bind (barrier.interrupt index)

end Barrier

/-- The runs of a controller with its operations. -/
def barrierSystem (rules : ServingRules Payload) : System (Barrier Payload) (BarrierAction Payload) where
  initial barrier := barrier = Barrier.fresh Payload
  step barrier action := barrier.step rules action

end TinyDSV41.Serving
