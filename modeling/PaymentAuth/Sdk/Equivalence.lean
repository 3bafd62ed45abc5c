import PaymentAuth.Policy.Assertions
import PaymentAuth.Sdk.Binding

/-! The SDK treats all presentations of a policy alike: they are authorized with the same
result, and an artifact is valid under all of them or under none. -/

namespace PaymentAuth.Sdk

open Library Mpcith Proof

section Presentations

variable {sha256 : Bytes → Digest} {config : SdkConfig} {payment payment' : Payment} {policy policy' : Policy}
  {authorization : Authorization}

theorem short_of_fits (fits : policy.encode.length ≤ maxEncodedSize) : policy.Short := by
  rw [Policy.encode, List.length_cons, maxEncodedSize] at fits
  apply Policy.short_of_length
  omega

/-- A policy that has an id has a short normal form. -/
theorem Attests.short (attests : Attests sha256 config payment policy authorization) :
    policy.normalizeNode.Short := by
  obtain ⟨fits, -⟩ := policyId_ok_iff.mp attests.policyId
  rw [Policy.normalizeNode_idempotent] at fits
  exact short_of_fits fits

/-- Verification sees the normal form of the policy only. -/
theorem Attests.congr (attests : Attests sha256 config payment policy authorization)
    (same : policy'.normalizeNode = policy.normalizeNode) :
    Attests sha256 config payment policy' authorization where
  configured := attests.configured
  backendId := attests.backendId
  version := attests.version
  policyId := same ▸ attests.policyId
  circuitId := same ▸ attests.circuitId
  paymentId := attests.paymentId
  accepted := same ▸ attests.accepted

/-- A credential listed twice. -/
def doubled (id : CredentialId) : Policy := .or [.credential id, .credential id]

theorem equivalent_doubled (id : CredentialId) : Policy.Equivalent (.credential id) (doubled id) := by
  apply Policy.Equivalent.symm
  apply Policy.Equivalent.trans (.duplicate .or (.credential id) [])
  exact .single .or (.credential id)

/-- Equivalent valid policies are authorized with the same result: the same artifact and
generator state, or the same error. -/
theorem authorize_congr (same : Policy.Equivalent policy policy') (valid : policy.validate = .ok ())
    (valid' : policy'.validate = .ok ()) (witness : PrivateWitness) (rng : Rng) :
    authorize sha256 config payment policy witness rng = authorize sha256 config payment policy' witness rng := by
  have small : policy.Small := Policy.small_iff.mpr (Policy.validate_ok_iff.mp valid).nodes
  have short : policy.normalizeNode.Short := short_of_fits small.normalizeNode.fits
  have normal : policy.normalizeNode = policy'.normalizeNode := (Policy.normalizeNode_eq_iff (.inl short)).mpr same
  simp only [authorize, authorizeWith, verifyWith, Policy.normalize, valid, valid', normal]

/-- The holder of a credential gets the same artifact where the credential is listed twice. -/
theorem authorize_congr_doubled : ∃ authorization next,
    authorize PaymentAuth.sha256 .default paymentOfFive (.credential (credentialOf [7]))
        (PrivateWitness.new [[7]] ⟨5, .cents⟩ 5) zeroRng = .ok (authorization, next) ∧
      authorize PaymentAuth.sha256 .default paymentOfFive (doubled (credentialOf [7]))
        (PrivateWitness.new [[7]] ⟨5, .cents⟩ 5) zeroRng = .ok (authorization, next) := by
  obtain ⟨authorization, next, produced⟩ := exists_authorize_credential zeroRng
  have same := @authorize_congr PaymentAuth.sha256 .default paymentOfFive _ _ (equivalent_doubled (credentialOf [7]))
    (by decide +kernel) (by decide +kernel) (PrivateWitness.new [[7]] ⟨5, .cents⟩ 5) zeroRng
  exact ⟨authorization, next, produced, same ▸ produced⟩

end Presentations

end PaymentAuth.Sdk
