import PaymentAuth.Policy.Normalize
import PaymentAuth.Policy.Validation

namespace PaymentAuth

open Library

/-- Domain separator binding policy ids to this policy model version. -/
def domainPolicy : Bytes := ascii "private-payment-auth/policy/v2"

/-- Stable identity of a policy. -/
abbrev PolicyId := Digest

/-- Hashes the encoding of the normal form. -/
def policyId (sha256 : Bytes → Digest) (policy : Policy) : Outcome PolicyError PolicyId := do
  let normalized ← policy.normalize
  let bytes := normalized.encode
  Outcome.reject (bytes.length > maxEncodedSize) .encodedSizeExceeded
  .ok ((sha256Backend sha256).hashDomain domainPolicy bytes)

/-- The method of the same name panics where the function fails. -/
def Policy.policyId {ε : Type} (sha256 : Bytes → Digest) (policy : Policy) : Outcome ε PolicyId :=
  (PaymentAuth.policyId sha256 policy).unwrap

theorem policyId_ok_iff {sha256 : Bytes → Digest} {policy : Policy} {id : PolicyId} :
    policyId sha256 policy = .ok id ↔
      policy.normalizeNode.encode.length ≤ maxEncodedSize ∧
        (sha256Backend sha256).hashDomain domainPolicy policy.normalizeNode.encode = id := by
  simp only [policyId, Policy.normalize, Outcome.ok_bind, Outcome.bind_ok_iff, Outcome.reject_ok_iff, exists_const,
    not_lt, Outcome.ok.injEq]

theorem Policy.policyId_ok_iff {ε : Type} {sha256 : Bytes → Digest} {policy : Policy} {id : PolicyId} :
    (policy.policyId sha256 : Outcome ε PolicyId) = .ok id ↔ PaymentAuth.policyId sha256 policy = .ok id :=
  Outcome.unwrap_ok_iff

end PaymentAuth
