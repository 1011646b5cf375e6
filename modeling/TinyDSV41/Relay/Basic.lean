/-
**What both roles of the browser relay share.**

Identities, the errors a handler can answer with, and the limits of the protocol.

* `Id` — a checked identity.
* `RelayError` — the errors with a status of their own.
-/

import Mathlib.Data.List.AList
import Mathlib.Algebra.Order.Field.Rat

namespace TinyDSV41.Relay

/-- `MAX_RESPONSE`, in bytes. -/
def maxResponse : ℕ := 2 * 1024 * 1024

/-- `MAX_INFLIGHT`. -/
def maxInflightLimit : ℕ := 64

/-- `MAX_TRACKED`. -/
def maxTracked : ℕ := 10000

/-- `MAX_GENERATION_SECONDS`. -/
def maxGenerationSeconds : ℕ := 600

/-- `CLAIM_RECEIPT_TTL`, in seconds. -/
def claimReceiptTtl : ℚ := 30

def isHexDigit (char : Char) : Bool := char.isDigit || ('a' ≤ char && char ≤ 'f')

/-- `ID.fullmatch`. -/
def isId (text : String) : Bool := text.toList.length == 32 && text.toList.all isHexDigit

/-- A text that `ID` matches. -/
structure Id where
  text : String
  valid : isId text = true
deriving DecidableEq

theorem Id.text_injective : Function.Injective Id.text := by
  rintro ⟨_, _⟩ ⟨_, _⟩ rfl
  rfl

/-- The errors that the handlers answer with a status of their own. -/
inductive RelayError
  | capacity (message : String)
  | conflict (message : String)
  | gone (message : String)
  | unknown (message : String)
  | value (message : String)
deriving DecidableEq

/-- The settings a relay is started with. -/
structure RelaySettings where
  maxInflight : ℕ
  maxSeconds : ℕ
  generationSeconds : ℕ
  controlled : Bool
  inflight : 1 ≤ maxInflight ∧ maxInflight ≤ maxInflightLimit
  seconds : 1 ≤ maxSeconds ∧ maxSeconds ≤ 43200
  generation : 1 ≤ generationSeconds ∧ generationSeconds ≤ maxGenerationSeconds
  serial : controlled = true → maxInflight = 1

/-- The identity of a request, refused with the given message. -/
def requireId (message text : String) : Except RelayError Id :=
  if valid : isId text = true then .ok ⟨text, valid⟩ else .error (.value message)

theorem bind_ok {Error First Second : Type} {first : Except Error First}
    {rest : First → Except Error Second} {result : Second} (done : (first >>= rest) = .ok result) :
    ∃ value, first = .ok value ∧ rest value = .ok result := by
  cases first with
  | error error => cases done
  | ok value => exact ⟨value, rfl, done⟩

theorem ok_of_toOption {Error Value : Type} {result : Except Error Value} {value : Value}
    (done : result.toOption = some value) : result = .ok value := by
  cases result with
  | error error => cases done
  | ok found =>
    cases done
    rfl

/-! ### Sample values -/

def oneRequest : RelaySettings where
  maxInflight := 1
  maxSeconds := 1800
  generationSeconds := 120
  controlled := false
  inflight := by decide
  seconds := by decide
  generation := by decide
  serial := nofun

def sampleId : Id := ⟨"00000000000000000000000000000001", by decide +kernel⟩

def otherId : Id := ⟨"00000000000000000000000000000002", by decide +kernel⟩

end TinyDSV41.Relay
