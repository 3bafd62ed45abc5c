import PaymentAuth.Proof.Oversized
import PaymentAuth.Sdk.Agreement

/-! What the verifiers make of policies that validation rejects. -/

namespace PaymentAuth

open Library

section Payments

variable {sha256 : Bytes → Digest} {policy : Policy} {error : PolicyError}

/-- A policy whose normal form is rejected has no circuit id. -/
theorem paymentCircuitId_rejected (rejected : policy.normalizeNode.validate = .error error) :
    paymentCircuitId sha256 policy = .error .invalidPolicy := by
  simp only [paymentCircuitId, compile, compileWithLayout, Policy.normalize, rejected, Outcome.ok_bind,
    Outcome.error_bind, Outcome.mapError]

/-- The verifier of payments returns an error for such a policy unless its id panics. -/
theorem verifyPaymentAuthorization_rejected (rejected : policy.normalizeNode.validate = .error error)
    (small : policy.normalizeNode.encode.length ≤ maxEncodedSize) (statement : PaymentStatement)
    (proof : Proof.NonInteractiveProof) :
    verifyPaymentAuthorization sha256 statement proof policy ≠ .ok true ∧
      verifyPaymentAuthorization sha256 statement proof policy ≠ .aborted := by
  constructor
  · intro accepted
    have named := (names_of_accepted accepted).circuitId
    rw [paymentCircuitId_rejected rejected] at named
    cases named
  · have named : (policy.policyId sha256 : Outcome PaymentError PolicyId) =
        .ok ((sha256Backend sha256).hashDomain domainPolicy policy.normalizeNode.encode) :=
      Policy.policyId_ok_iff.mpr (policyId_ok_iff.mpr ⟨small, rfl⟩)
    have unbound (result : Unit) : checkStatementBinding sha256 statement policy ≠ .ok result := by
      intro checked
      have computed := (checkStatementBinding_ok_iff.mp checked).circuitId
      rw [paymentCircuitId_rejected rejected] at computed
      cases computed
    refine Outcome.bind_ne_aborted ?_ fun result checked => absurd checked (unbound result)
    refine Outcome.bind_ne_aborted Outcome.reject_ne_aborted fun _ _ => ?_
    rw [named, Outcome.ok_bind, paymentCircuitId_rejected rejected]
    exact Outcome.bind_ne_aborted Outcome.reject_ne_aborted fun _ _ => Outcome.error_ne_aborted _

/-- The id of a policy whose normal form is too large panics. -/
theorem verifyPaymentAuthorization_oversized (large : maxEncodedSize < policy.normalizeNode.encode.length)
    {statement : PaymentStatement} (version : statement.protocolVersion = Proof.protocolVersion)
    (proof : Proof.NonInteractiveProof) : verifyPaymentAuthorization sha256 statement proof policy = .aborted := by
  have exceeds : policyId sha256 policy = .error .encodedSizeExceeded := by
    simp only [policyId, Policy.normalize, Outcome.ok_bind, Outcome.reject, gt_iff_lt, if_pos large, Outcome.error_bind]
  have panics : (policy.policyId sha256 : Outcome PaymentError PolicyId) = .aborted := by
    rw [Policy.policyId, exceeds]
    rfl
  rw [verifyPaymentAuthorization, checkStatementBinding, Outcome.reject_of_not (not_not.mpr version), Outcome.ok_bind,
    panics]
  rfl

/-- For a statement that carries the ids of its policy the verification of some proof panics. -/
theorem exists_verifyPaymentAuthorization_aborted {statement : PaymentStatement}
    (names : statement.Names sha256 policy) :
    ∃ proof, verifyPaymentAuthorization sha256 statement proof policy = .aborted := by
  obtain ⟨compiled, compiles, _⟩ := Outcome.bind_ok_iff.mp names.circuitId
  obtain ⟨root, wiring, correct⟩ := compileWithLayout_ok (compile_ok_iff.mp compiles)
  obtain ⟨secrets, accepted⟩ := correct.exists_boundAccepts statement
  have honest := paymentProver_honest compiles correct names accepted
  obtain ⟨proof, same, _, aborts⟩ := @Proof.exists_aborting _ _ (provenStatement compiled wiring statement)
    honest.validated
  have computed := names.circuitId
  rw [paymentCircuitId_eq compiles correct] at computed
  have matched : ¬ proof.statement.circuitId ≠ statement.circuitId := by
    rw [same, not_not]
    rfl
  have checked : checkStatementBinding sha256 statement policy = .ok () := checkStatementBinding_ok_iff.mpr names
  refine ⟨proof, ?_⟩
  rw [verifyPaymentAuthorization, checked, Outcome.ok_bind, compiles, Outcome.ok_bind,
    correct.bindStatement_eq, Outcome.ok_bind, computed, Outcome.ok_bind, Outcome.reject_of_not matched,
    Outcome.ok_bind, correct.boundPublicInputs_eq, Outcome.ok_bind]
  exact congrArg proofVerdict aborts

end Payments

end PaymentAuth

namespace PaymentAuth.Sdk

open Library Mpcith Proof

section Refusal

variable {sha256 : Bytes → Digest} {config : SdkConfig} {payment : Payment} {policy : Policy} {error : PolicyError}
  {authorization : Authorization}

theorem invalidIf_ne_aborted {condition : Prop} [Decidable condition] {failure : VerificationFailure}
    {next : Outcome SdkError VerificationResult} (returns : next ≠ .aborted) :
    invalidIf condition failure next ≠ .aborted := by
  unfold invalidIf
  split
  · exact Outcome.ok_ne_aborted _
  · exact returns

theorem backendFromId_ne_aborted (id : BackendId) : backendFromId id ≠ .aborted := by
  unfold backendFromId
  split
  · exact Outcome.ok_ne_aborted _
  · split
    · exact Outcome.ok_ne_aborted _
    · exact Outcome.error_ne_aborted _

/-- The verifier of artifacts returns an error or a failure under a policy whose
normal form is rejected. -/
theorem verify_rejected (rejected : policy.normalizeNode.validate = .error error) (config : SdkConfig)
    (payment : Payment) (authorization : Authorization) :
    verify sha256 config payment policy authorization ≠ .ok .valid ∧
      verify sha256 config payment policy authorization ≠ .aborted := by
  have unnamed : paymentCircuitId sha256 policy.normalizeNode = .error .invalidPolicy := by
    refine @paymentCircuitId_rejected sha256 policy.normalizeNode error ?_
    rwa [policy.normalizeNode_idempotent]
  constructor
  · intro valid
    have computed := (verify_valid_iff.mp valid).circuitId
    rw [unnamed] at computed
    cases computed
  · refine Outcome.bind_ne_aborted Outcome.reject_ne_aborted fun _ _ => ?_
    refine Outcome.bind_ne_aborted (backendFromId_ne_aborted _) fun backend _ => ?_
    cases backend with
    | shake256 => exact Outcome.error_ne_aborted _
    | sha256 =>
      refine Outcome.bind_ne_aborted Outcome.reject_ne_aborted fun _ _ => ?_
      refine invalidIf_ne_aborted (invalidIf_ne_aborted (invalidIf_ne_aborted ?_))
      refine Outcome.bind_ne_aborted (Outcome.ok_ne_aborted _) fun normalized normalizes => ?_
      cases normalizes
      refine Outcome.bind_ne_aborted (Outcome.mapError_ne_aborted ?_) fun policyId _ => ?_
      · refine Outcome.bind_ne_aborted (Outcome.ok_ne_aborted _) fun _ _ => ?_
        exact Outcome.bind_ne_aborted Outcome.reject_ne_aborted fun _ _ => Outcome.ok_ne_aborted _
      · refine invalidIf_ne_aborted ?_
        rw [unnamed]
        exact Outcome.error_ne_aborted _

/-- Neither verifier reports validity under a policy, and neither panics. -/
structure Refuses (sha256 : Bytes → Digest) (policy : Policy) : Prop where
  artifacts : ∀ config payment authorization, verify sha256 config payment policy authorization ≠ .ok .valid ∧
    verify sha256 config payment policy authorization ≠ .aborted
  payments : ∀ statement proof, verifyPaymentAuthorization sha256 statement proof policy ≠ .ok true ∧
    verifyPaymentAuthorization sha256 statement proof policy ≠ .aborted

/-- Any policy, valid or not, is refused exactly when its normal form is invalid and not too large to be hashed. -/
theorem refuses_iff (sha256 : Bytes → Digest) (policy : Policy) :
    Refuses sha256 policy ↔
      (∃ error, (do let normalized ← policy.normalize; normalized.validate) = .error error) ∧
        ∀ normalized, policy.normalize = .ok normalized → normalized.encode.length ≤ maxEncodedSize := by
  constructor
  · intro refuses
    refine ⟨?_, ?_⟩
    · refine Outcome.exists_error policy.normalizeNode.validate_ne_aborted fun result valid => ?_
      obtain ⟨policyId, circuitId, names⟩ := @exists_names sha256 _ valid 5
      obtain ⟨proof, aborts⟩ := exists_verifyPaymentAuthorization_aborted names
      exact (refuses.payments _ proof).2 aborts
    · rintro normalized normalizes
      cases normalizes
      by_contra large
      have proof : NonInteractiveProof :=
        ⟨protocolVersion, protocolId, (sha256Backend sha256).id, ⟨zeroDigest, [], []⟩, []⟩
      exact (refuses.payments (filledStatement 5) proof).2
        (verifyPaymentAuthorization_oversized (not_le.mp large) rfl proof)
  · rintro ⟨⟨error, rejected⟩, small⟩
    exact ⟨verify_rejected rejected, verifyPaymentAuthorization_rejected rejected (small _ rfl)⟩

/-- A conjunction of a credential and of nothing. -/
def hollow : Policy := .and [.and [], .credential (.filled 4)]

/-- An invalid policy has an artifact and a proof that are reported valid. -/
theorem hollow_accepted :
    hollow.validate = .error .emptyPolicy ∧
      (∃ authorization, verify PaymentAuth.sha256 .default paymentOfFive hollow authorization = .ok .valid) ∧
      ∃ statement proof, verifyPaymentAuthorization PaymentAuth.sha256 statement proof hollow = .ok true := by
  have valid : hollow.normalizeNode.validate = .ok () := by decide
  obtain ⟨policyId, circuitId, names⟩ := @exists_names PaymentAuth.sha256 _ valid 5
  obtain ⟨proof, accepted, -⟩ := @exists_accepted _ _ _ names 1 (by decide)
  exact ⟨by decide, exists_valid rfl valid, _, proof, accepted⟩

end Refusal

end PaymentAuth.Sdk
