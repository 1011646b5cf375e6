/-
**Policies, artifacts and acknowledgements.**

An artifact is what a learner exports; a policy is what a serving route makes of it, together with the
identities of the route; an acknowledgement names the policy whose weights are loaded.

* `Policy.of` — `artifact_policy` with the checks of `PolicyRef`.
-/

import TinyDSV41.Relay.Basic

namespace TinyDSV41.Serving

/-- `policy_ack`: what is acknowledged of a policy. -/
structure PolicyAck where
  version : ℕ
  digest : String
  lineage : String
deriving DecidableEq

/-- A policy artifact: its identity is its canonical text. -/
structure Artifact where
  version : ℕ
  digest : String
  lineage : String
  identity : String
  temperature : ℚ
deriving DecidableEq

def Artifact.ack (artifact : Artifact) : PolicyAck :=
  ⟨artifact.version, artifact.digest, artifact.lineage⟩

/-- `PolicyRef`; it samples the full categorical distribution. -/
structure Policy where
  version : ℕ
  digest : String
  lineage : String
  identities : List (String × String)
  temperature : ℚ
deriving DecidableEq

def Policy.ack (policy : Policy) : PolicyAck := ⟨policy.version, policy.digest, policy.lineage⟩

/-- `_digest`: 64 hexadecimal digits. -/
def isDigest (text : String) : Bool := text.toList.length == 64 && text.toList.all Relay.isHexDigit

/-- `artifact_policy`, with the checks of `PolicyRef`. -/
def Policy.of (identities : List (String × String)) (sha256 : String → String) (artifact : Artifact) :
    Option Policy :=
  if isDigest artifact.digest = true ∧ artifact.lineage ≠ "" ∧
      (identities.all fun entry => entry.1 ≠ "" && entry.2 ≠ "") = true ∧ 0 < artifact.temperature then
    some ⟨artifact.version, artifact.digest, artifact.lineage,
      identities ++ [("run_identity_sha256", sha256 artifact.identity)], artifact.temperature⟩
  else none

theorem Policy.of_ack {identities : List (String × String)} {sha256 : String → String}
    {artifact : Artifact} {policy : Policy} (made : Policy.of identities sha256 artifact = some policy) :
    policy.ack = artifact.ack := by
  unfold Policy.of at made
  split_ifs at made
  cases made
  rfl

end TinyDSV41.Serving
