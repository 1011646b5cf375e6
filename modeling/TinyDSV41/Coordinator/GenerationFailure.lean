/-
**The check of a failure receipt, as it arrives.**

A receipt is a JSON value of which nothing is known. `validate_generation_failure` compares it with the
request it came for; a value of the wrong kind may also raise where it is compared.

* `ofJson` — a JSON value as the coordinator reads it.
* `validateGenerationFailure` — the check, in the order of the source.
-/

import TinyDSV41.Coordinator.Contracts
import TinyDSV41.Lib.Checks
import TinyDSV41.Lib.JsonEncoding

namespace TinyDSV41.Coordinator

open Lib (Json Text text require require_eq_ok bind_eq_ok)

/-! ### Values -/

def characters (value : Text) : String := String.ofList (value.map Char.ofNat)

mutual
/-- The value without the difference between an integer and a float; what is read strictly has no
constants. -/
def ofJson : Json → Value
  | .null => .null
  | .bool value => .bool value
  | .int value => .number value
  | .float value _ => .number value
  | .nonFinite constant => .text constant.name
  | .str value => .text (characters value)
  | .list items => .list (ofItems items)
  | .object entries => .mapping (ofEntries entries)
def ofItems : List Json → List Value
  | [] => []
  | item :: rest => ofJson item :: ofItems rest
def ofEntries : List (Text × Json) → Mapping
  | [] => []
  | (key, value) :: rest => (characters key, ofJson value) :: ofEntries rest
end

def ofObject : Json → Mapping
  | .object entries => ofEntries entries
  | _ => []

def field (value : Json) (key : String) : Json := (value.get key).getD .null

def isLiteral (value : Json) (literal : String) : Bool :=
  match value with
  | .str value => value = text literal
  | _ => false

/-- `value is expected` -/
def isBool (value : Json) (expected : Bool) : Bool :=
  match value with
  | .bool value => value = expected
  | _ => false

/-- `type(value) is bool` -/
def isBoolean : Json → Bool
  | .bool _ => true
  | _ => false

/-- The integer, if `type(value) is int`. -/
def asInteger : Json → Option ℤ
  | .int value => some value
  | _ => none

/-- A text that a pattern of so many letters matches. -/
def fullmatch (value : Json) (letter : ℕ → Bool) (least most : ℕ) : Bool :=
  match value with
  | .str value => decide (least ≤ value.length ∧ value.length ≤ most) && value.all letter
  | _ => false

/-- `[a-f0-9]` -/
def hexLetter (code : ℕ) : Bool := decide (48 ≤ code ∧ code ≤ 57 ∨ 97 ≤ code ∧ code ≤ 102)

/-- `[a-z0-9_]` -/
def stageLetter (code : ℕ) : Bool := decide (48 ≤ code ∧ code ≤ 57 ∨ 97 ≤ code ∧ code ≤ 122 ∨ code = 95)

/-! ### The check -/

/-- What the check raises: a `ValueError` or a `TypeError`. -/
inductive CheckError
  | value (message : String)
  | type
deriving DecidableEq

def receiptKeys : List String :=
  ["schema_version", "request_id", "request_payload_sha256", "policy_ack", "stage", "sampler_outcome",
    "sampler_drained", "actual_actor_drain_proven", "drain_scope", "proof_kind", "automatic_replay"]

def ackKeys : List String := ["version", "digest", "lineage"]

/-- `failure_is_terminal` of a receipt whose keys are known. -/
def provesClosure (receipt : Json) : Bool := (failureIsTerminal (ofObject receipt)).getD false

/-- `value in texts`; a list and an object have no hash. -/
def inTexts (value : Json) (texts : List String) : Except CheckError Bool :=
  match value with
  | .list _ | .object _ => .error .type
  | value => .ok (texts.any (isLiteral value))

/-- What binds a receipt to its request, and the kinds of its fields. -/
def checkBinding (evidenceDigest requestId : String) (receipt : Json) : Except CheckError Unit := do
  let message := CheckError.value "invalid bound generation failure receipt"
  require (receipt.hasKeys receiptKeys = true) message
  require (asInteger (field receipt "schema_version") = some 1) message
  require (isLiteral (field receipt "request_id") requestId = true) message
  require (fullmatch (.str (text requestId)) hexLetter 32 32 = true) message
  require (isLiteral (field receipt "request_payload_sha256") evidenceDigest = true) message
  require (isLiteral (field receipt "drain_scope") "request" = true) message
  require (isBool (field receipt "automatic_replay") false = true) message
  require (fullmatch (field receipt "stage") stageLetter 1 64 = true) message
  let known ← inTexts (field receipt "sampler_outcome") ["not_admitted", "completed", "unknown"]
  require (known = true) message
  require (isBoolean (field receipt "sampler_drained") = true ∧
    isBoolean (field receipt "actual_actor_drain_proven") = true) message

def checkAck (expected : Option Value) (ack : Json) : Except CheckError Unit :=
  require (ack.hasKeys ackKeys = true ∧
      ((asInteger (field ack "version")).any fun version => 0 ≤ version) = true ∧
      fullmatch (field ack "digest") hexLetter 64 64 = true ∧
      (field ack "lineage").isText = true ∧ isLiteral (field ack "lineage") "" = false ∧
      (expected.all fun expected => (ofJson ack).pyEq expected) = true)
    (.value "generation failure differs from the leased policy")

/-- `validate_generation_failure`. -/
def validateGenerationFailure (evidenceDigest requestId : String) (expected : Option Value)
    (receipt : Json) : Except CheckError Json := do
  checkBinding evidenceDigest requestId receipt
  checkAck expected (field receipt "policy_ack")
  if isLiteral (field receipt "sampler_outcome") "unknown" then
    require (isLiteral (field receipt "proof_kind") "none" = true ∧
        isBool (field receipt "sampler_drained") true = false ∧
        isBool (field receipt "actual_actor_drain_proven") true = false)
      (.value "unknown generation cannot claim sampler drain")
  else
    require (provesClosure receipt = true)
      (.value "known generation failure requires actual request closure proof")
  return receipt

end TinyDSV41.Coordinator
