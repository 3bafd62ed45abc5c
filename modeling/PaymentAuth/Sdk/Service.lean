import PaymentAuth.Payment.Admission
import PaymentAuth.Proof.Reception
import PaymentAuth.Sdk.Refusal

/-! The SDK as a service: what it answers to any request and to any received bytes. -/

namespace PaymentAuth

open Library

section Relation

variable {sha256 : Bytes → Digest} {statement : PaymentStatement} {witness : PrivateWitness} {policy : Policy}

/-- Compilation returns, whatever the policy is. -/
theorem compileWithLayout_ne_aborted (policy : Policy) :
    (compileWithLayout policy : Outcome PolicyError (CompiledPolicy FieldElement)) ≠ .aborted := by
  cases checked : policy.normalizeNode.validate with
  | ok result =>
    obtain ⟨compiled, compiles⟩ := compileWithLayout_succeeds checked
    rw [compiles]
    exact Outcome.ok_ne_aborted compiled
  | error failure =>
    rw [compileWithLayout, Policy.normalize, Outcome.ok_bind, checked]
    exact Outcome.error_ne_aborted failure
  | aborted => exact absurd checked policy.normalizeNode.validate_ne_aborted

theorem Policy.evaluate_ne_aborted (policyWitness : PolicyWitness) :
    policy.evaluate sha256 policyWitness ≠ .aborted := by
  apply Outcome.bind_ne_aborted
  · apply Outcome.bind_ne_aborted
    · exact Outcome.forM_ne_aborted fun _ _ => Outcome.reject_ne_aborted
    · intro _ _
      exact Outcome.reject_ne_aborted
  · intro _ _
    exact Outcome.ok_ne_aborted _

theorem PrivateWitness.validate_failsOnly (witness : PrivateWitness) (policy : Policy) :
    Outcome.FailsOnly (· ≠ .policyIdMismatch) (witness.validate policy) := by
  apply (Outcome.FailsOnly.reject (by decide)).bind
  intro _ _
  apply Outcome.FailsOnly.forM
  intro secret _
  exact Outcome.FailsOnly.reject (by decide)

/-- The plaintext relation returns, and does not complain of the policy id when it is the policy's own. -/
theorem AuthorizationRelation.validate_failsOnly (named : policyId sha256 policy = .ok statement.policyId) :
    Outcome.FailsOnly (· ≠ .policyIdMismatch)
      (AuthorizationRelation.validate sha256 statement witness policy) := by
  apply (Outcome.FailsOnly.mapError policy.validate_ne_aborted fun _ _ => by decide).bind
  intro _ valid
  rw [Policy.policyId_ok_iff.mpr named, Outcome.ok_bind, Outcome.reject_of_not (not_not.mpr rfl), Outcome.ok_bind]
  apply (witness.validate_failsOnly policy).bind
  intro _ _
  apply (Outcome.FailsOnly.reject (by decide)).bind
  intro _ _
  have caps : Outcome.FailsOnly (· ≠ PaymentError.policyIdMismatch) (forM policy.limits (checkLimit witness)) := by
    apply Outcome.FailsOnly.forM
    intro limit _
    apply (Outcome.FailsOnly.reject (by decide)).bind
    intro _ _
    exact Outcome.FailsOnly.reject (by decide)
  apply caps.bind
  intro _ _
  have pairing : Outcome.FailsOnly (· ≠ PaymentError.policyIdMismatch) (witness.toPolicyWitness policy) := by
    apply (witness.validate_failsOnly policy).bind
    intro _ _
    exact Outcome.FailsOnly.ok _
  apply pairing.bind
  intro policyWitness paired
  apply (Outcome.FailsOnly.mapError (Policy.evaluate_ne_aborted policyWitness) fun _ _ => by decide).bind
  intro result _
  apply (Outcome.FailsOnly.reject (by decide)).bind
  intro _ _
  apply (Outcome.FailsOnly.mapError (compileWithLayout_ne_aborted policy) fun _ _ => by decide).bind
  intro compiled compiles
  have covered := PolicyWitness.covers_of_matched (PrivateWitness.toPolicyWitness_matches paired)
  have evaluated := @CompiledPolicy.referenceEvaluate_eq sha256 _ _ _ (Outcome.mapError_ok_iff.mp compiles) covered
  rw [evaluated, Outcome.mapError_ok, Outcome.ok_bind]
  exact Outcome.FailsOnly.reject (by decide)

end Relation

section Verification

variable {sha256 : Bytes → Digest} {policy : Policy} {proof : Proof.NonInteractiveProof}

end Verification

end PaymentAuth

namespace PaymentAuth.Sdk

open Library Mpcith Proof

section Requests

variable (sha256 : Bytes → Digest) (config : SdkConfig) (payment : Payment) (policy : Policy) (witness : PrivateWitness)

/-- The checks of a request for an authorization, with nothing proved. -/
def checkRequest : Outcome SdkError Unit := do
  Outcome.reject (config.backendId ≠ (sha256Backend sha256).id) .backendUnsupported
  validatePayment payment
  policy.validate.mapError fun _ => SdkError.invalidPolicy
  let policyId ← (policyId sha256 policy.normalizeNode).mapError fun _ => .invalidPolicy
  let circuitId ← (paymentCircuitId sha256 policy.normalizeNode).mapError fun _ => .invalidPolicy
  (AuthorizationRelation.validate sha256 (authorizedStatement sha256 config payment policyId circuitId) witness
    policy.normalizeNode).mapError relationToSdkError
  Outcome.reject (config.protocolVersion ≠ Proof.protocolVersion) .authorizationGenerationFailed

/-- What a refused request may be told. -/
def requestErrors : List SdkError :=
  [.backendUnsupported, .invalidPayment, .invalidPolicy, .invalidWitness, .authorizationGenerationFailed]

end Requests

section Requested

variable {sha256 : Bytes → Digest} {config : SdkConfig} {payment : Payment} {policy : Policy} {witness : PrivateWitness}

/-- The id of a circuit for a policy is found or refused. -/
private theorem paymentCircuitId_ne_aborted (policy : Policy) :
    paymentCircuitId sha256 policy.normalizeNode ≠ .aborted := by
  have same := policy.normalizeNode_idempotent
  cases checked : policy.normalizeNode.validate with
  | ok result =>
    rw [← same] at checked
    obtain ⟨_, circuitId, _, computed⟩ := @exists_ids sha256 _ checked
    rw [computed]
    exact Outcome.ok_ne_aborted circuitId
  | error failure =>
    rw [← same] at checked
    rw [paymentCircuitId_rejected checked]
    exact Outcome.error_ne_aborted _
  | aborted => exact absurd checked policy.normalizeNode.validate_ne_aborted

private theorem policyId_ne_aborted (policy : Policy) : policyId sha256 policy ≠ .aborted := by
  apply Outcome.bind_ne_aborted (Outcome.ok_ne_aborted _)
  intro _ _
  apply Outcome.bind_ne_aborted Outcome.reject_ne_aborted
  intro _ _
  exact Outcome.ok_ne_aborted _

/-- The checks of a request return, with one of five errors when they fail. -/
theorem checkRequest_failsOnly :
    Outcome.FailsOnly (· ∈ requestErrors) (checkRequest sha256 config payment policy witness) := by
  apply (Outcome.FailsOnly.reject (by decide)).bind
  intro _ _
  apply (Outcome.FailsOnly.reject (by decide)).bind
  intro _ _
  apply (Outcome.FailsOnly.mapError policy.validate_ne_aborted fun _ _ => by decide).bind
  intro _ _
  apply (Outcome.FailsOnly.mapError (policyId_ne_aborted policy.normalizeNode) fun _ _ => by decide).bind
  intro policyId named
  apply (Outcome.FailsOnly.mapError (paymentCircuitId_ne_aborted policy) fun _ _ => by decide).bind
  intro circuitId _
  have related := @AuthorizationRelation.validate_failsOnly sha256
    (authorizedStatement sha256 config payment policyId circuitId) witness policy.normalizeNode
    (Outcome.mapError_ok_iff.mp named)
  have renamed (failure : PaymentError) (other : failure ≠ .policyIdMismatch) :
      relationToSdkError failure ∈ requestErrors := by
    cases failure with
    | policyIdMismatch => exact absurd rfl other
    | _ => decide
  apply (Outcome.FailsOnly.mapError related.returns fun failure failed => renamed failure (related.errors failure failed)).bind
  intro _ _
  exact Outcome.FailsOnly.reject (by decide)

/-- A statement of another protocol version is refused before anything else. -/
private theorem authorizePayment_version (statement : PaymentStatement) (rng : Rng)
    (other : statement.protocolVersion ≠ Proof.protocolVersion) :
    authorizePayment sha256 statement witness policy rng = .error .statementMismatch := by
  have refused : checkStatementBinding sha256 statement policy = .error .statementMismatch := by
    rw [checkStatementBinding, Outcome.reject, if_pos other]
    rfl
  rw [authorizePayment, refused]
  rfl

/-- Whatever the prover draws, the SDK issues an authorization exactly when the checks
of the request pass, and reports a failed check as it is. -/
private theorem authorize_eq_checkRequest (rng : Rng) :
    (fun _ => ()) <$> authorize sha256 config payment policy witness rng =
      checkRequest sha256 config payment policy witness := by
  by_cases configured : config.backendId = (sha256Backend sha256).id
  · have dispatched : backendFromId config.backendId = .ok .sha256 := backendFromId_ok_iff.mpr configured
    simp only [authorize, dispatched, Outcome.ok_bind, authorizeWith, checkRequest, Policy.normalize, Outcome.mapError_ok,
      buildStatement, Outcome.reject_of_not (not_not.mpr configured), Outcome.reject_of_not (not_not.mpr rfl), map_bind]
    apply Outcome.bind_congr
    intro _ version
    apply Outcome.bind_congr
    intro _ valid
    apply Outcome.bind_congr
    intro policyId named
    apply Outcome.bind_congr
    intro circuitId computed
    apply Outcome.bind_congr
    intro _ related
    have names : (authorizedStatement sha256 config payment policyId circuitId).protocolVersion = protocolVersion →
        (authorizedStatement sha256 config payment policyId circuitId).Names sha256 policy.normalizeNode := by
      intro version
      exact ⟨version, Outcome.mapError_ok_iff.mp named, Outcome.mapError_ok_iff.mp computed⟩
    by_cases current : config.protocolVersion = protocolVersion
    · obtain ⟨proof, next, authorized⟩ := @exists_authorizePayment _ _ _ _ rng (names current)
        (Outcome.mapError_ok_iff.mp related)
      obtain ⟨accepted, -⟩ := authorizePayment_verified authorized
      have confirmed : verifyWith sha256 config payment policy (sha256Backend sha256)
          ⟨authorizationVersion, config.protocolVersion, (sha256Backend sha256).id, payment.paymentId, policyId,
            circuitId, proof⟩ = .ok .valid :=
        verifyWith_valid_iff.mpr ⟨configured.symm, rfl, rfl, (names current).policyId, (names current).circuitId, rfl,
          accepted⟩
      rw [authorizedStatement] at authorized
      rw [authorized, Outcome.mapError_ok, Outcome.ok_bind, Outcome.reject_of_not (not_not.mpr current)]
      split
      · rw [confirmed, Outcome.ok_bind, Outcome.reject_of_not (not_not.mpr rfl)]
        rfl
      · rfl
    · have refused := @authorizePayment_version sha256 policy.normalizeNode witness
        (authorizedStatement sha256 config payment policyId circuitId) rng current
      rw [authorizedStatement] at refused
      rw [refused, Outcome.reject, if_pos current]
      rfl
  · have unsupported : checkRequest sha256 config payment policy witness = .error .backendUnsupported := by
      rw [checkRequest, Outcome.reject, if_pos configured]
      rfl
    rw [unsupported, authorize]
    cases dispatched : backendFromId config.backendId with
    | ok backend =>
      cases backend with
      | sha256 => exact absurd (backendFromId_ok_iff.mp dispatched) configured
      | shake256 => rfl
    | error failure =>
      unfold backendFromId at dispatched
      split at dispatched
      · cases dispatched
      · split at dispatched
        · cases dispatched
        · cases dispatched
          rfl
    | aborted => exact absurd dispatched (backendFromId_ne_aborted _)

/-- The SDK decides a request by its plaintext checks, whatever the prover draws: generating
the proof and checking it again never fail, and neither does the request panic. -/
theorem authorize_decides (rng : Rng) :
    (fun _ => ()) <$> authorize sha256 config payment policy witness rng =
        checkRequest sha256 config payment policy witness ∧
      Outcome.FailsOnly (· ∈ requestErrors) (authorize sha256 config payment policy witness rng) := by
  have decided := @authorize_eq_checkRequest sha256 config payment policy witness rng
  refine ⟨decided, ?_⟩
  have refusals := @checkRequest_failsOnly sha256 config payment policy witness
  rw [← decided] at refusals
  cases issued : authorize sha256 config payment policy witness rng with
  | ok result => exact Outcome.FailsOnly.ok result
  | error failure =>
    rw [issued] at refusals
    exact Outcome.FailsOnly.error (refusals.errors failure rfl)
  | aborted =>
    rw [issued] at refusals
    exact absurd rfl refusals.returns

end Requested

section Reception

variable {sha256 : Bytes → Digest} {config : SdkConfig} {payment : Payment} {policy : Policy}

end Reception

end PaymentAuth.Sdk
