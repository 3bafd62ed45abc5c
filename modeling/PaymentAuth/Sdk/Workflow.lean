import PaymentAuth.Payment.Completeness
import PaymentAuth.Sdk.Encoding

/-! The authorize and verify workflows. -/

namespace PaymentAuth.Sdk

open Library Mpcith Proof

/-- Frozen configuration of an SDK. -/
structure SdkConfig where
  protocolVersion : UInt8
  backendId : BackendId
  repetitions : UInt32
  selfVerify : Bool

/-- Default Fiat–Shamir repetition count. -/
def defaultRepetitions : UInt32 := 12

/-- `SdkConfig::default`. -/
def SdkConfig.default : SdkConfig := ⟨Proof.protocolVersion, (sha256Backend sha256).id, defaultRepetitions, true⟩

/-- The backends the SDK can dispatch to. -/
inductive BackendType where
  | sha256
  | shake256
deriving DecidableEq, Repr

def backendFromId (id : BackendId) : Outcome SdkError BackendType :=
  if id = (sha256Backend sha256).id then .ok .sha256
  else if id = shake256BackendId then .ok .shake256
  else .error .backendUnsupported

/-- Why a verification failed. -/
inductive VerificationFailure where
  | paymentMismatch
  | policyMismatch
  | circuitMismatch
  | backendMismatch
  | versionMismatch
  | proofInvalid
deriving DecidableEq, Repr

/-- Outcome of a verification. -/
inductive VerificationResult where
  | valid
  | invalid (failure : VerificationFailure)
deriving DecidableEq, Repr

/-- Domain separator of the statement nonce. -/
def nonceDomain : Bytes := ascii "private-payment-auth/sdk/nonce/v1"

section Helpers

variable (sha256 : Bytes → Digest)

def validatePayment (payment : Payment) : Outcome SdkError Unit :=
  Outcome.reject (payment.version ≠ paymentEncodingVersion) .invalidPayment

/-- Builds a payment statement from the public inputs. -/
def buildStatement (payment : Payment) (policyId : PolicyId) (circuitId : CircuitId) (protocolVersion : UInt8)
    (nonce : Bytes32) : Outcome SdkError PaymentStatement :=
  .ok { paymentId := payment.semanticId sha256
        amount := ⟨payment.amount.value, payment.amount.unit⟩
        recipientCommitment := payment.recipientCommitment
        policyId := policyId
        circuitId := circuitId
        protocolVersion := protocolVersion
        nonce := nonce }

/-- Derives the nonce of a statement from the public binding triple. -/
def deterministicNonce (paymentId : Bytes32) (policyId circuitId : Digest) : Bytes32 :=
  sha256HashDomain sha256 nonceDomain (paymentId.bytes ++ policyId.bytes ++ circuitId.bytes)

end Helpers

/-- What a failed payment check means to the caller of the SDK. -/
def relationToSdkError : PaymentError → SdkError
  | .invalidPolicy => .invalidPolicy
  | .policyIdMismatch => .policyMismatch
  | .witnessCountMismatch | .malformedCredentialSecret => .invalidWitness
  | .amountMismatch | .amountExceedsLimit | .invalidBitWitness => .invalidWitness
  | .policyNotSatisfied | .credentialCommitmentMismatch | .thresholdNotMet | .proofGenerationFailed | .proofRejected
  | .statementMismatch => .authorizationGenerationFailed

/-- What the verdict of the payment verifier means to the caller of the SDK. -/
def paymentVerdict : Outcome PaymentError Bool → Outcome SdkError VerificationResult
  | .ok true => .ok .valid
  | .ok false => .ok (.invalid .proofInvalid)
  | .error _ => .ok (.invalid .proofInvalid)
  | .aborted => .aborted

/-- Returns the given failure when the condition holds. -/
def invalidIf (condition : Prop) [Decidable condition] (failure : VerificationFailure)
    (next : Outcome SdkError VerificationResult) : Outcome SdkError VerificationResult :=
  if condition then .ok (.invalid failure) else next

section Workflows

variable (sha256 : Bytes → Digest) (config : SdkConfig) (payment : Payment) (policy : Policy)

/-- Verification under one backend. -/
def verifyWith (backend : CryptoBackend) (authorization : Authorization) : Outcome SdkError VerificationResult := do
  Outcome.reject (backend.id ≠ (sha256Backend sha256).id) .backendUnsupported
  invalidIf (authorization.version ≠ authorizationVersion) .versionMismatch <|
    invalidIf (authorization.backendId ≠ config.backendId) .backendMismatch <|
    invalidIf (authorization.backendId ≠ backend.id) .backendMismatch do
      let normalized ← policy.normalize.mapError fun _ => .invalidPolicy
      let policyId ← (policyId sha256 normalized).mapError fun _ => .invalidPolicy
      invalidIf (authorization.policyId ≠ policyId) .policyMismatch do
        let circuitId ← (paymentCircuitId sha256 normalized).mapError fun _ => .invalidPolicy
        invalidIf (authorization.circuitId ≠ circuitId) .circuitMismatch <|
          invalidIf (authorization.paymentId ≠ payment.paymentId) .paymentMismatch do
            let statement ← buildStatement sha256 payment policyId circuitId authorization.protocolVersion
              (deterministicNonce sha256 authorization.paymentId authorization.policyId authorization.circuitId)
            paymentVerdict (verifyPaymentAuthorization sha256 statement authorization.proof normalized)

/-- Verifies an artifact against a payment and a policy. -/
def verify (authorization : Authorization) : Outcome SdkError VerificationResult := do
  Outcome.reject (authorization.backendId ≠ config.backendId) .backendMismatch
  match ← backendFromId authorization.backendId with
  | .sha256 => verifyWith sha256 config payment policy (sha256Backend sha256) authorization
  | .shake256 => .error .backendUnsupported

/-- Authorization under one backend. -/
def authorizeWith (backend : CryptoBackend) (witness : PrivateWitness) (rng : Rng) :
    Outcome SdkError (Authorization × Rng) := do
  Outcome.reject (backend.id ≠ (sha256Backend sha256).id) .backendUnsupported
  validatePayment payment
  policy.validate.mapError fun _ => SdkError.invalidPolicy
  let normalized ← policy.normalize.mapError fun _ => .invalidPolicy
  let policyId ← (policyId sha256 normalized).mapError fun _ => .invalidPolicy
  let circuitId ← (paymentCircuitId sha256 normalized).mapError fun _ => .invalidPolicy
  let nonce := deterministicNonce sha256 payment.paymentId policyId circuitId
  let statement ← buildStatement sha256 payment policyId circuitId config.protocolVersion nonce
  (AuthorizationRelation.validate sha256 statement witness normalized).mapError relationToSdkError
  let (proof, rng) ← (authorizePayment sha256 statement witness normalized rng).mapError fun _ =>
    .authorizationGenerationFailed
  let authorization : Authorization :=
    ⟨authorizationVersion, config.protocolVersion, backend.id, payment.paymentId, policyId, circuitId, proof⟩
  if config.selfVerify then do
    let result ← verifyWith sha256 config payment policy backend authorization
    Outcome.reject (result ≠ .valid) .selfVerificationFailed
    .ok (authorization, rng)
  else .ok (authorization, rng)

/-- Generates an artifact that proves a payment authorized under a policy. -/
def authorize (witness : PrivateWitness) (rng : Rng) : Outcome SdkError (Authorization × Rng) := do
  match ← backendFromId config.backendId with
  | .sha256 => authorizeWith sha256 config payment policy (sha256Backend sha256) witness rng
  | .shake256 => .error .backendUnsupported

end Workflows

section Verification

variable {sha256 : Bytes → Digest} {config : SdkConfig} {payment : Payment} {policy : Policy}
  {authorization : Authorization}

/-- The statement that an artifact is verified for. -/
def statementOf (sha256 : Bytes → Digest) (payment : Payment) (authorization : Authorization) : PaymentStatement where
  paymentId := payment.semanticId sha256
  amount := payment.amount
  recipientCommitment := payment.recipientCommitment
  policyId := authorization.policyId
  circuitId := authorization.circuitId
  protocolVersion := authorization.protocolVersion
  nonce := deterministicNonce sha256 payment.paymentId authorization.policyId authorization.circuitId

/-- What a valid artifact satisfies. -/
structure Attests (sha256 : Bytes → Digest) (config : SdkConfig) (payment : Payment) (policy : Policy)
    (authorization : Authorization) : Prop where
  configured : authorization.backendId = config.backendId
  backendId : authorization.backendId = (sha256Backend sha256).id
  version : authorization.version = authorizationVersion
  policyId : PaymentAuth.policyId sha256 policy.normalizeNode = .ok authorization.policyId
  circuitId : paymentCircuitId sha256 policy.normalizeNode = .ok authorization.circuitId
  paymentId : authorization.paymentId = payment.paymentId
  accepted : verifyPaymentAuthorization sha256 (statementOf sha256 payment authorization) authorization.proof
    policy.normalizeNode = .ok true

@[simp] theorem invalidIf_valid_iff {condition : Prop} [Decidable condition] {failure : VerificationFailure}
    {next : Outcome SdkError VerificationResult} :
    invalidIf condition failure next = .ok .valid ↔ ¬condition ∧ next = .ok .valid := by
  unfold invalidIf
  split <;> simp_all

@[simp] theorem paymentVerdict_valid_iff {call : Outcome PaymentError Bool} :
    paymentVerdict call = .ok .valid ↔ call = .ok true := by
  unfold paymentVerdict
  split <;> simp_all

theorem backendFromId_ok_iff {id : BackendId} :
    backendFromId id = .ok .sha256 ↔ id = (sha256Backend sha256).id := by
  unfold backendFromId
  by_cases same : id = (sha256Backend PaymentAuth.sha256).id
  · rw [if_pos same]
    exact iff_of_true rfl same
  · rw [if_neg same]
    refine iff_of_false ?_ same
    split <;> simp

theorem verifyWith_valid_iff : verifyWith sha256 config payment policy (sha256Backend sha256) authorization = .ok .valid ↔
    Attests sha256 config payment policy authorization := by
  simp only [verifyWith, Policy.normalize, buildStatement, Outcome.mapError_ok, Outcome.ok_bind, Outcome.bind_ok_iff,
    Outcome.reject_ok_iff, exists_const, invalidIf_valid_iff, paymentVerdict_valid_iff, Outcome.mapError_ok_iff, not_not,
    true_and]
  constructor
  · rintro ⟨version, configured, backendId, policyId, named, rfl, circuitId, computed, rfl, paymentId, accepted⟩
    rw [paymentId] at accepted
    exact ⟨configured, backendId, version, named, computed, paymentId, accepted⟩
  · intro attests
    refine ⟨attests.version, attests.configured, attests.backendId, _, attests.policyId, rfl, _, attests.circuitId, rfl,
      attests.paymentId, ?_⟩
    rw [attests.paymentId]
    exact attests.accepted

/-- An artifact is valid exactly when it attests the payment under the policy. -/
theorem verify_valid_iff : verify sha256 config payment policy authorization = .ok .valid ↔
    Attests sha256 config payment policy authorization := by
  simp only [verify, Outcome.bind_ok_iff, Outcome.reject_ok_iff, exists_const, not_not]
  constructor
  · rintro ⟨_, backend, dispatched, valid⟩
    cases backend with
    | shake256 => cases valid
    | sha256 => exact verifyWith_valid_iff.mp valid
  · intro attests
    exact ⟨attests.configured, .sha256, backendFromId_ok_iff.mpr attests.backendId, verifyWith_valid_iff.mpr attests⟩

end Verification

end PaymentAuth.Sdk
