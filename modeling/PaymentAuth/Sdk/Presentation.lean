import PaymentAuth.Policy.Mismatch
import PaymentAuth.Sdk.Agreement

/-! How the order in which a policy is presented reaches the two provers: one pairs
the secrets with the credentials as presented, the other in normalized order. -/

namespace PaymentAuth

open Library Mpcith

section Normalized

variable {sha256 : Bytes → Digest} {policy : Policy}

theorem policyId_normalizeNode : policyId sha256 policy.normalizeNode = policyId sha256 policy := by
  simp only [policyId, Policy.normalize, Outcome.ok_bind, policy.normalizeNode_idempotent]

theorem compile_normalizeNode : compile policy.normalizeNode = compile policy := by
  simp only [compile, compileWithLayout, Policy.normalize, Outcome.ok_bind, policy.normalizeNode_idempotent]

theorem paymentCircuitId_normalizeNode :
    paymentCircuitId sha256 policy.normalizeNode = paymentCircuitId sha256 policy := by
  rw [paymentCircuitId, compile_normalizeNode, paymentCircuitId]

/-- A statement carries the ids of a policy when it carries those of its normal form. -/
theorem PaymentStatement.names_normalizeNode_iff {statement : PaymentStatement} :
    statement.Names sha256 policy.normalizeNode ↔ statement.Names sha256 policy := by
  constructor
  · intro names
    exact ⟨names.protocolVersion, policyId_normalizeNode.symm.trans names.policyId,
      paymentCircuitId_normalizeNode.symm.trans names.circuitId⟩
  · intro names
    exact ⟨names.protocolVersion, policyId_normalizeNode.trans names.policyId,
      paymentCircuitId_normalizeNode.trans names.circuitId⟩

/-- The secrets of a witness satisfy a policy when each is taken for the credential
at its position in the normal form of the policy, which has as many credentials. -/
structure Policy.OpenedInNormalOrder (sha256 : Bytes → Digest) (policy : Policy) (witness : PrivateWitness) :
    Prop where
  count : policy.normalizeNode.policyCredentialIds.length = policy.policyCredentialIds.length
  satisfied : policy.formula.eval
    (Policy.leafSatisfied sha256 (witness.pairedWith policy.normalizeNode.policyCredentialIds)) = true

variable {witness : PrivateWitness} {statement : PaymentStatement} {rng next : Rng} {proof : Proof.NonInteractiveProof}

theorem Policy.equivalent_of_validate (valid : policy.normalizeNode.validate = .ok ()) :
    Equivalent policy policy.normalizeNode :=
  equivalent_normalizeNode (short_of_length (valid_of_validate valid).encodeNode_length_lt)

/-- A payment authorized for a policy as presented is authorized for its normal
form exactly when the secrets open it in normal order. -/
theorem authorizePayment_normalizeNode_iff
    (paid : authorizePayment sha256 statement witness policy rng = .ok (proof, next)) :
    (∃ proof next, authorizePayment sha256 statement witness policy.normalizeNode rng = .ok (proof, next)) ↔
      policy.OpenedInNormalOrder sha256 witness := by
  have names := PaymentStatement.names_normalizeNode_iff.mpr (authorizePayment_ok paid).1
  have related := paid
  simp only [authorizePayment, Outcome.bind_ok_iff] at related
  obtain ⟨_, -, _, related, -⟩ := related
  obtain ⟨-, -, amounts, caps, presented, paired, -, _, compiled, -⟩ := AuthorizationRelation.validate_ok_iff.mp related
  obtain ⟨_, normalizes, compiled⟩ := Outcome.bind_ok_iff.mp compiled
  obtain ⟨_, valid, -⟩ := Outcome.bind_ok_iff.mp compiled
  cases normalizes
  have same := Policy.equivalent_of_validate valid
  obtain ⟨checked, -⟩ := PrivateWitness.toPolicyWitness_ok_iff.mp paired
  have count := PrivateWitness.validate_length checked
  constructor
  · rintro ⟨proof', next', paid'⟩
    have related' := paid'
    simp only [authorizePayment, Outcome.bind_ok_iff] at related'
    obtain ⟨_, -, _, related', -⟩ := related'
    obtain ⟨-, -, -, -, reordered, paired', ⟨result, evaluated, authorized⟩, -⟩ :=
      AuthorizationRelation.validate_ok_iff.mp related'
    obtain ⟨checked', rfl⟩ := PrivateWitness.toPolicyWitness_ok_iff.mp paired'
    obtain ⟨result', evaluated', decided⟩ :=
      @Policy.evaluate_eq sha256 _ _ (PrivateWitness.toPolicyWitness_matches paired')
    cases evaluated.symm.trans evaluated'
    refine ⟨(PrivateWitness.validate_length checked').symm.trans count, ?_⟩
    rw [same.eval]
    exact decided.symm.trans authorized
  · intro opened
    have checked' : witness.validate policy.normalizeNode = .ok () := by
      rw [PrivateWitness.validate] at checked ⊢
      rwa [opened.count]
    have satisfied := opened.satisfied
    rw [same.eval] at satisfied
    have caps' : ∀ limit ∈ policy.normalizeNode.limits, AuthorizationRelation.checkLimit witness limit = .ok () := by
      intro limit listed
      exact caps limit (Policy.mem_limits.mpr ((same.leaves _).mpr (Policy.mem_limits.mp listed)))
    exact exists_authorizePayment_of_opened names valid checked' amounts caps' satisfied

end Normalized

end PaymentAuth

namespace PaymentAuth.Sdk

open Library Mpcith

section Agreement

variable {sha256 : Bytes → Digest} {config : SdkConfig} {payment : Payment} {policy : Policy} {witness : PrivateWitness}
  {statement : PaymentStatement} {rng next : Rng} {proof : Proof.NonInteractiveProof}

/-- The statement that authorization builds before it looks at the witness. -/
def requestStatement (sha256 : Bytes → Digest) (config : SdkConfig) (payment : Payment) (policy : Policy) :
    Outcome SdkError PaymentStatement := do
  validatePayment payment
  policy.validate.mapError fun _ => SdkError.invalidPolicy
  let normalized ← policy.normalize.mapError fun _ => .invalidPolicy
  let policyId ← (policyId sha256 normalized).mapError fun _ => .invalidPolicy
  let circuitId ← (paymentCircuitId sha256 normalized).mapError fun _ => .invalidPolicy
  let nonce := deterministicNonce sha256 payment.paymentId policyId circuitId
  buildStatement sha256 payment policyId circuitId config.protocolVersion nonce

theorem requestStatement_ok_iff : requestStatement sha256 config payment policy = .ok statement ↔
    payment.version = paymentEncodingVersion ∧ policy.validate = .ok () ∧ ∃ policyId circuitId,
      PaymentAuth.policyId sha256 policy.normalizeNode = .ok policyId ∧
        paymentCircuitId sha256 policy.normalizeNode = .ok circuitId ∧
          authorizedStatement sha256 config payment policyId circuitId = statement := by
  simp only [requestStatement, validatePayment, Policy.normalize, buildStatement, Outcome.mapError_ok, Outcome.ok_bind,
    Outcome.bind_ok_iff, Outcome.mapError_ok_iff, Outcome.reject_ok_iff, not_not, exists_const, Outcome.ok.injEq]
  constructor
  · rintro ⟨version, _, valid, policyId, named, circuitId, computed, same⟩
    exact ⟨version, valid, policyId, circuitId, named, computed, same⟩
  · rintro ⟨version, valid, policyId, circuitId, named, computed, same⟩
    exact ⟨version, (), valid, policyId, named, circuitId, computed, same⟩

/-- By default authorization proves the statement it builds for the normal form. -/
theorem exists_authorize_iff :
    (∃ authorization next, authorize sha256 .default payment policy witness rng = .ok (authorization, next)) ↔
      ∃ statement, requestStatement sha256 .default payment policy = .ok statement ∧ ∃ proof next,
        authorizePayment sha256 statement witness policy.normalizeNode rng = .ok (proof, next) := by
  have dispatched : backendFromId SdkConfig.default.backendId = .ok .sha256 := rfl
  simp only [authorize, dispatched, Outcome.ok_bind, requestStatement_ok_iff]
  rw [@exists_authorizeWith_iff sha256 .default payment policy witness rng rfl]
  constructor
  · rintro ⟨version, valid, policyId, circuitId, proof, next, named, computed, paid⟩
    exact ⟨_, ⟨version, valid, policyId, circuitId, named, computed, rfl⟩, proof, next, paid⟩
  · rintro ⟨_, ⟨version, valid, policyId, circuitId, named, computed, rfl⟩, proof, next, paid⟩
    exact ⟨version, valid, policyId, circuitId, proof, next, named, computed, paid⟩

/-- Where the payment path authorizes a policy as presented, the SDK does so exactly
when the secrets open the policy in normal order. -/
theorem authorize_agrees_iff (built : requestStatement sha256 .default payment policy = .ok statement)
    (paid : authorizePayment sha256 statement witness policy rng = .ok (proof, next)) :
    (∃ authorization next, authorize sha256 .default payment policy witness rng = .ok (authorization, next)) ↔
      policy.OpenedInNormalOrder sha256 witness := by
  rw [exists_authorize_iff, ← authorizePayment_normalizeNode_iff paid]
  constructor
  · rintro ⟨other, built', authorized⟩
    cases built.symm.trans built'
    exact authorized
  · intro authorized
    exact ⟨statement, built, authorized⟩

end Agreement

section Instance

/-- Both of two credentials, presented in this order. -/
def bothOf (first second : Bytes) : Policy := .and [.credential (credentialOf first), .credential (credentialOf second)]

/-- Both secrets in the order of the presentation, for a payment of five. -/
def bothSecrets (first second : Bytes) : PrivateWitness := .new [first, second] ⟨5, .cents⟩ 5

/-- The payment path authorizes secrets that open the presented credentials in order. -/
private theorem exists_paid {first second : Bytes} (valid : (bothOf first second).validate = .ok ())
    (normal : (bothOf first second).normalizeNode.validate = .ok ())
    (checked : (bothSecrets first second).validate (bothOf first second) = .ok ())
    (opened : (bothOf first second).formula.eval (Policy.leafSatisfied PaymentAuth.sha256
      ((bothSecrets first second).pairedWith (bothOf first second).policyCredentialIds)) = true) :
    ∃ statement, requestStatement PaymentAuth.sha256 .default paymentOfFive (bothOf first second) = .ok statement ∧
      ∀ rng, ∃ proof next, authorizePayment PaymentAuth.sha256 statement (bothSecrets first second)
        (bothOf first second) rng = .ok (proof, next) := by
  obtain ⟨policyId, circuitId, named, computed⟩ := @exists_ids PaymentAuth.sha256 _ normal
  refine ⟨authorizedStatement PaymentAuth.sha256 .default paymentOfFive policyId circuitId, ?_, fun rng => ?_⟩
  · exact requestStatement_ok_iff.mpr ⟨rfl, valid, policyId, circuitId, policyId_normalizeNode.trans named,
      paymentCircuitId_normalizeNode.trans computed, rfl⟩
  · refine exists_authorizePayment_of_opened ⟨rfl, named, computed⟩ valid checked rfl (fun limit listed => ?_) opened
    cases listed

private theorem bothOf_valid : (bothOf [1] [2]).validate = .ok () ∧ (bothOf [2] [1]).validate = .ok () := by
  decide +kernel

/-- The commitment of `[1]` comes before that of `[2]`. -/
private theorem bothOf_normal :
    (bothOf [1] [2]).normalizeNode = bothOf [1] [2] ∧ (bothOf [2] [1]).normalizeNode = bothOf [1] [2] := by
  have short : (bothOf [1] [2]).Short :=
    Policy.short_of_length (Policy.valid_of_validate bothOf_valid.1).encodeNode_length_lt
  have encodings : (bothOf [1] [2]).encode = (bothOf [1] [2]).normalizeNode.encode ∧
      (bothOf [1] [2]).encode = (bothOf [2] [1]).normalizeNode.encode := by
    decide +kernel
  exact ⟨(Policy.encode_injective short encodings.1).symm, (Policy.encode_injective short encodings.2).symm⟩

/-- Secrets in the order of the normal presentation are proved by both paths. -/
theorem authorize_agrees_ordered :
    ∃ authorization next, authorize PaymentAuth.sha256 .default paymentOfFive (bothOf [1] [2])
      (bothSecrets [1] [2]) zeroRng = .ok (authorization, next) := by
  have opened : (bothOf [1] [2]).formula.eval (Policy.leafSatisfied PaymentAuth.sha256
      ((bothSecrets [1] [2]).pairedWith (bothOf [1] [2]).policyCredentialIds)) = true := by
    decide +kernel
  obtain ⟨statement, built, authorized⟩ := @exists_paid [1] [2] bothOf_valid.1
    (by rw [bothOf_normal.1]; exact bothOf_valid.1) (by decide +kernel) opened
  obtain ⟨proof, next, paid⟩ := authorized zeroRng
  refine (authorize_agrees_iff built paid).mpr ⟨by rw [bothOf_normal.1], ?_⟩
  rw [bothOf_normal.1]
  exact opened

/-- Secrets in the order of a presentation that is not the normal one are proved by
the payment path and refused by the SDK. -/
theorem authorize_disagrees_swapped :
    (bothOf [2] [1]).validate = .ok () ∧ (bothOf [2] [1]).normalizeNode.validate = .ok () ∧
      (bothOf [2] [1]).policyCredentialIds = (bothSecrets [2] [1]).credentialSecrets.map credentialOf ∧
      ∃ statement, requestStatement PaymentAuth.sha256 .default paymentOfFive (bothOf [2] [1]) = .ok statement ∧
        (∀ rng, ∃ proof next, authorizePayment PaymentAuth.sha256 statement (bothSecrets [2] [1]) (bothOf [2] [1]) rng =
          .ok (proof, next)) ∧
        ∀ rng, ¬ ∃ authorization next, authorize PaymentAuth.sha256 .default paymentOfFive (bothOf [2] [1])
          (bothSecrets [2] [1]) rng = .ok (authorization, next) := by
  have normal : (bothOf [2] [1]).normalizeNode.validate = .ok () := by
    rw [bothOf_normal.2]
    exact bothOf_valid.1
  have opened : (bothOf [2] [1]).formula.eval (Policy.leafSatisfied PaymentAuth.sha256
      ((bothSecrets [2] [1]).pairedWith (bothOf [2] [1]).policyCredentialIds)) = true := by
    decide +kernel
  have crossed : (bothOf [2] [1]).formula.eval (Policy.leafSatisfied PaymentAuth.sha256
      ((bothSecrets [2] [1]).pairedWith (bothOf [1] [2]).policyCredentialIds)) = false := by
    decide +kernel
  obtain ⟨statement, built, authorized⟩ := @exists_paid [2] [1] bothOf_valid.2 normal
    (by decide +kernel) opened
  refine ⟨bothOf_valid.2, normal, rfl, statement, built, authorized, fun rng => ?_⟩
  obtain ⟨proof, next, paid⟩ := authorized rng
  rw [exists_authorize_iff]
  rintro ⟨other, built', proved⟩
  cases built.symm.trans built'
  have satisfied := ((authorizePayment_normalizeNode_iff paid).mp proved).satisfied
  rw [bothOf_normal.2, crossed] at satisfied
  cases satisfied

end Instance

end PaymentAuth.Sdk
