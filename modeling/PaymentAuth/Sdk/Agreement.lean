import PaymentAuth.Sdk.Workflow

/-! Both workflows agree: what is authorized verifies, and only for what it was authorized for. -/

namespace PaymentAuth.Sdk

open Library Mpcith Proof

section Completeness

variable {sha256 : Bytes → Digest} {config : SdkConfig} {payment : Payment} {policy : Policy} {witness : PrivateWitness}
  {rng next : Rng} {authorization : Authorization}

/-- A returned artifact attests its payment and has the decoder's shape. -/
theorem authorizeWith_attests
    (produced : authorizeWith sha256 config payment policy (sha256Backend sha256) witness rng =
      .ok (authorization, next)) (configured : config.backendId = (sha256Backend sha256).id) :
    Attests sha256 config payment policy authorization ∧ authorization.Encodable := by
  simp only [authorizeWith, Policy.normalize, buildStatement, Outcome.mapError_ok, Outcome.ok_bind, Outcome.bind_ok_iff,
    Outcome.mapError_ok_iff, Prod.exists] at produced
  obtain ⟨_, -, _, -, _, -, policyId, named, circuitId, computed, _, -, proof, rng', authorized, returned⟩ := produced
  obtain ⟨accepted, encodable⟩ := authorizePayment_verified authorized
  have version : config.protocolVersion = protocolVersion := (names_of_accepted accepted).protocolVersion
  have same : authorization = ⟨authorizationVersion, config.protocolVersion, (sha256Backend sha256).id,
      payment.paymentId, policyId, circuitId, proof⟩ := by
    split at returned
    · obtain ⟨_, _, returned⟩ := Outcome.bind_ok_iff.mp returned
      obtain ⟨_, _, returned⟩ := Outcome.bind_ok_iff.mp returned
      cases returned
      rfl
    · cases returned
      rfl
  subst same
  refine ⟨⟨configured.symm, rfl, rfl, named, computed, rfl, accepted⟩, ⟨rfl, ?_, List.mem_cons_self, encodable⟩⟩
  have supported : protocolVersion ∈ supportedProtocolVersions := by decide
  rwa [version]

/-- The statement that a payment is authorized with. -/
def authorizedStatement (sha256 : Bytes → Digest) (config : SdkConfig) (payment : Payment) (policyId : PolicyId)
    (circuitId : CircuitId) : PaymentStatement where
  paymentId := payment.semanticId sha256
  amount := payment.amount
  recipientCommitment := payment.recipientCommitment
  policyId := policyId
  circuitId := circuitId
  protocolVersion := config.protocolVersion
  nonce := deterministicNonce sha256 payment.paymentId policyId circuitId

/-- Authorization asks for a valid request whose payment is authorized under the
normal form; the verification of its own result never fails. -/
theorem exists_authorizeWith_iff (configured : config.backendId = (sha256Backend sha256).id) :
    (∃ authorization next,
        authorizeWith sha256 config payment policy (sha256Backend sha256) witness rng = .ok (authorization, next)) ↔
      payment.version = paymentEncodingVersion ∧ policy.validate = .ok () ∧ ∃ policyId circuitId proof next,
        PaymentAuth.policyId sha256 policy.normalizeNode = .ok policyId ∧
          paymentCircuitId sha256 policy.normalizeNode = .ok circuitId ∧
            authorizePayment sha256 (authorizedStatement sha256 config payment policyId circuitId) witness
              policy.normalizeNode rng = .ok (proof, next) := by
  constructor
  · rintro ⟨authorization, next, produced⟩
    simp only [authorizeWith, validatePayment, Policy.normalize, buildStatement, Outcome.mapError_ok, Outcome.ok_bind,
      Outcome.bind_ok_iff, Outcome.mapError_ok_iff, Outcome.reject_ok_iff, not_not, exists_const, Prod.exists] at produced
    obtain ⟨-, version, _, valid, policyId, named, circuitId, computed, _, -, proof, rng', authorized, -⟩ := produced
    exact ⟨version, valid, policyId, circuitId, proof, rng', named, computed, authorized⟩
  · rintro ⟨version, valid, policyId, circuitId, proof, next, named, computed, authorized⟩
    have related := authorized
    simp only [authorizePayment, Outcome.bind_ok_iff] at related
    obtain ⟨_, -, _, related, -⟩ := related
    obtain ⟨accepted, -⟩ := authorizePayment_verified authorized
    have valid' : verifyWith sha256 config payment policy (sha256Backend sha256)
        ⟨authorizationVersion, config.protocolVersion, (sha256Backend sha256).id, payment.paymentId, policyId, circuitId,
          proof⟩ = .ok .valid :=
      verifyWith_valid_iff.mpr ⟨configured.symm, rfl, rfl, named, computed, rfl, accepted⟩
    rw [authorizedStatement] at related authorized
    simp only [authorizeWith, validatePayment, Policy.normalize, buildStatement, Outcome.mapError_ok, Outcome.ok_bind,
      valid, named, computed, Outcome.reject_of_not (not_not.mpr rfl), Outcome.reject_of_not (not_not.mpr version)]
    rw [related, Outcome.mapError_ok, Outcome.ok_bind, authorized, Outcome.mapError_ok, Outcome.ok_bind]
    refine ⟨⟨authorizationVersion, config.protocolVersion, (sha256Backend sha256).id, payment.paymentId, policyId,
      circuitId, proof⟩, next, ?_⟩
    split
    · rw [valid', Outcome.ok_bind, Outcome.reject_of_not (not_not.mpr rfl), Outcome.ok_bind]
    · rfl

/-- What is authorized survives the wire and verifies. -/
theorem authorize_verifies (produced : authorize sha256 config payment policy witness rng = .ok (authorization, next)) :
    ∃ received, deserialize (serialize authorization) = .ok received ∧ received = authorization ∧
      verify sha256 config payment policy received = .ok .valid := by
  simp only [authorize, Outcome.bind_ok_iff] at produced
  obtain ⟨backend, dispatched, produced⟩ := produced
  cases backend with
  | shake256 => cases produced
  | sha256 =>
    obtain ⟨attests, encodable⟩ := authorizeWith_attests produced (backendFromId_ok_iff.mp dispatched)
    exact ⟨authorization, deserialize_ok_iff.mpr ⟨encodable, rfl⟩, rfl, verify_valid_iff.mpr attests⟩

/-- Every payment has valid artifacts of every positive number of repetitions under a
policy whose normal form is valid. -/
theorem exists_valid_count (configured : config.backendId = (sha256Backend sha256).id)
    (valid : policy.normalizeNode.validate = .ok ()) {count : UInt32} (positive : count ≠ 0) :
    ∃ authorization, verify sha256 config payment policy authorization = .ok .valid ∧
      authorization.proof.repetitions.length = count.toNat := by
  have idempotent := policy.normalizeNode_idempotent
  rw [← idempotent] at valid
  obtain ⟨policyId, circuitId, named, computed⟩ := @exists_ids sha256 _ valid
  let authorization (proof : NonInteractiveProof) : Authorization :=
    ⟨authorizationVersion, protocolVersion, (sha256Backend sha256).id, payment.paymentId, policyId, circuitId, proof⟩
  have names (proof : NonInteractiveProof) :
      (statementOf sha256 payment (authorization proof)).Names sha256 policy.normalizeNode := ⟨rfl, named, computed⟩
  obtain ⟨proof, accepted, length⟩ := exists_accepted (names ⟨protocolVersion, protocolId, (sha256Backend sha256).id,
    ⟨circuitId, [], []⟩, []⟩) positive
  exact ⟨authorization proof, verify_valid_iff.mpr ⟨configured.symm, rfl, rfl, named, computed, rfl, accepted⟩, length⟩

theorem exists_valid (configured : config.backendId = (sha256Backend sha256).id)
    (valid : policy.normalizeNode.validate = .ok ()) :
    ∃ authorization, verify sha256 config payment policy authorization = .ok .valid := by
  obtain ⟨authorization, accepted, -⟩ := @exists_valid_count _ _ payment _ configured valid 1 (by decide)
  exact ⟨authorization, accepted⟩

/-- The policy of a valid artifact has a valid normal form. -/
theorem Attests.valid (attests : Attests sha256 config payment policy authorization) :
    policy.normalizeNode.validate = .ok () := by
  obtain ⟨_, compiles, -⟩ := Outcome.bind_ok_iff.mp attests.circuitId
  obtain ⟨_, normalizes, validated⟩ := Outcome.bind_ok_iff.mp (compile_ok_iff.mp compiles)
  obtain ⟨_, valid, -⟩ := Outcome.bind_ok_iff.mp validated
  cases normalizes
  rwa [policy.normalizeNode_idempotent] at valid

/-- A payment of five. -/
def paymentOfFive : Payment where
  version := paymentEncodingVersion
  paymentId := (CredentialId.filled 2).toDigest
  amount := ⟨5, .cents⟩
  recipientCommitment := (CredentialId.filled 3).toDigest
  nonce := (CredentialId.filled 6).toDigest

/-- A prover that only draws zeros. -/
def zeroRng : Rng := ⟨⟨fun _ => 0, fun _ => ⟨List.replicate randomnessLen 0, List.length_replicate⟩⟩, 0, 0⟩

/-- The holder of a credential authorizes a payment of five. -/
theorem exists_authorize_credential (rng : Rng) :
    ∃ authorization next, authorize PaymentAuth.sha256 .default paymentOfFive (.credential (credentialOf [7]))
      (PrivateWitness.new [[7]] ⟨5, .cents⟩ 5) rng = .ok (authorization, next) := by
  have dispatched : backendFromId SdkConfig.default.backendId = .ok .sha256 := rfl
  simp only [authorize, dispatched, Outcome.ok_bind]
  have valid : (Policy.credential (credentialOf [7])).validate = .ok () := by decide +kernel
  obtain ⟨policyId, circuitId, named, computed⟩ := @exists_ids PaymentAuth.sha256 (.credential (credentialOf [7])) valid
  have opened : (Policy.credential (credentialOf [7])).formula.eval (Policy.leafSatisfied PaymentAuth.sha256
      ((PrivateWitness.new [[7]] ⟨5, .cents⟩ 5).pairedWith [credentialOf [7]])) = true := by decide +kernel
  obtain ⟨proof, next, authorized⟩ := @exists_authorizePayment_of_opened PaymentAuth.sha256
    (authorizedStatement PaymentAuth.sha256 .default paymentOfFive policyId circuitId)
    (PrivateWitness.new [[7]] ⟨5, .cents⟩ 5) (.credential (credentialOf [7])) rng ⟨rfl, named, computed⟩ valid rfl rfl
    (by simp [Policy.limits]) opened
  exact (exists_authorizeWith_iff rfl).mpr ⟨rfl, valid, policyId, circuitId, proof, next, named, computed, authorized⟩

/-- The artifact of a credential holder arrives and verifies. -/
theorem authorize_verifies_credential :
    ∃ authorization received, deserialize (serialize authorization) = .ok received ∧ received = authorization ∧
      verify PaymentAuth.sha256 .default paymentOfFive (.credential (credentialOf [7])) received = .ok .valid := by
  obtain ⟨authorization, next, produced⟩ := exists_authorize_credential zeroRng
  obtain ⟨received, decoded, same, valid⟩ := authorize_verifies produced
  exact ⟨authorization, received, decoded, same, valid⟩

end Completeness

end PaymentAuth.Sdk
