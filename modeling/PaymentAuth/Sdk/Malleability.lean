import PaymentAuth.Proof.Malleability
import PaymentAuth.Sdk.Agreement

/-! A valid artifact cannot be changed on the wire without new commitments. -/

namespace PaymentAuth.Sdk

open Library Mpcith Proof

section Malleability

variable {sha256 : Bytes → Digest} {config config' : SdkConfig} {payment : Payment} {policy : Policy}
  {authorization authorization' : Authorization} {bytes bytes' : Bytes}

/-- Everything but the proof of a valid artifact follows from its payment and its policy. -/
theorem Attests.header (first : Attests sha256 config payment policy authorization)
    (second : Attests sha256 config' payment policy authorization') :
    authorization' = { authorization with proof := authorization'.proof } := by
  have version := first.version.trans second.version.symm
  have backendId := first.backendId.trans second.backendId.symm
  have paymentId := first.paymentId.trans second.paymentId.symm
  have policyId := Outcome.ok.inj (first.policyId.symm.trans second.policyId)
  have circuitId := Outcome.ok.inj (first.circuitId.symm.trans second.circuitId)
  have protocol : authorization.protocolVersion = Proof.protocolVersion :=
    (names_of_accepted first.accepted).protocolVersion
  have protocol' : authorization'.protocolVersion = Proof.protocolVersion :=
    (names_of_accepted second.accepted).protocolVersion
  cases authorization
  cases authorization'
  simp only [Authorization.mk.injEq, and_true]
  exact ⟨version.symm, protocol'.trans protocol.symm, backendId.symm, paymentId.symm, policyId.symm, circuitId.symm⟩

/-- Valid artifacts for one payment and one policy with the same commitments are the same
bytes, or hold two openings of one commitment. -/
theorem received_unique (decoded : deserialize bytes = .ok authorization)
    (decoded' : deserialize bytes' = .ok authorization')
    (accepted : verify sha256 config payment policy authorization = .ok .valid)
    (accepted' : verify sha256 config' payment policy authorization' = .ok .valid)
    (commitments : authorization.proof.commitments = authorization'.proof.commitments) :
    bytes = bytes' ∨ ¬CollisionFree (sha256Backend sha256)
      (authorization.proof.openings ++ authorization'.proof.openings) := by
  by_cases free : CollisionFree (sha256Backend sha256)
      (authorization.proof.openings ++ authorization'.proof.openings)
  · left
    obtain ⟨encodable, rfl⟩ := deserialize_ok_iff.mp decoded
    obtain ⟨encodable', rfl⟩ := deserialize_ok_iff.mp decoded'
    have attests := verify_valid_iff.mp accepted
    have attests' := verify_valid_iff.mp accepted'
    have header := attests.header attests'
    have statements : statementOf sha256 payment authorization' = statementOf sha256 payment authorization := by
      rw [header]
      rfl
    have second := attests'.accepted
    rw [statements] at second
    obtain ⟨compiled, compiles, _⟩ := Outcome.bind_ok_iff.mp attests.circuitId
    obtain ⟨root, wiring, correct⟩ := compileWithLayout_ok (compile_ok_iff.mp compiles)
    obtain ⟨-, verified⟩ := (verifyPaymentAuthorization_true_iff compiles correct).mp attests.accepted
    obtain ⟨-, verified'⟩ := (verifyPaymentAuthorization_true_iff compiles correct).mp second
    have same := verified.unique verified' commitments encodable.proof encodable'.proof free
    rw [header, ← same]
  · exact .inr free

/-- The artifact of a credential holder, received twice. -/
theorem received_unique_credential : ∃ (authorization : Authorization) (bytes : Bytes),
    deserialize bytes = .ok authorization ∧
      verify PaymentAuth.sha256 .default paymentOfFive (.credential (credentialOf [7])) authorization = .ok .valid ∧
      (bytes = bytes ∨ ¬CollisionFree (sha256Backend PaymentAuth.sha256)
        (authorization.proof.openings ++ authorization.proof.openings)) := by
  obtain ⟨authorization, next, produced⟩ := exists_authorize_credential zeroRng
  obtain ⟨received, decoded, rfl, accepted⟩ := authorize_verifies produced
  exact ⟨received, serialize received, decoded, accepted, received_unique decoded decoded accepted accepted rfl⟩

end Malleability

end PaymentAuth.Sdk
