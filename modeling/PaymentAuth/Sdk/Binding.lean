import PaymentAuth.Sdk.Agreement

/-! An artifact is valid for one payment and one normal form only. -/

namespace PaymentAuth.Sdk

open Library Mpcith Proof

/-- The messages whose hashes bind an artifact to a payment and to a policy. -/
def boundMessages (payment : Payment) (policy : Policy) : List Bytes :=
  [lengthPrefixed paymentIdDomain ++ payment.encode, frame domainPolicy policy.normalizeNode.encode]

/-- The field image of a hash. -/
def hashToField (sha256 : Bytes → Digest) (message : Bytes) : FieldElement := digestToField (sha256 message)

section Binding

variable {sha256 : Bytes → Digest} {config : SdkConfig} {payment payment' : Payment} {policy policy' : Policy}
  {authorization : Authorization}

/-- Policies with the id of one artifact have one normal form. -/
theorem Attests.normalizeNode_eq (first : Attests sha256 config payment policy authorization)
    (second : Attests sha256 config payment' policy' authorization)
    (apart : Set.InjOn (hashToField sha256) {message | message ∈ boundMessages payment policy ++
      boundMessages payment' policy'}) : policy.normalizeNode = policy'.normalizeNode := by
  obtain ⟨fits, named⟩ := policyId_ok_iff.mp first.policyId
  obtain ⟨-, named'⟩ := policyId_ok_iff.mp second.policyId
  rw [Policy.normalizeNode_idempotent] at fits named named'
  have framed : frame domainPolicy policy.normalizeNode.encode = frame domainPolicy policy'.normalizeNode.encode :=
    apart (by simp [boundMessages]) (by simp [boundMessages]) (congrArg digestToField (named.trans named'.symm))
  have encoded : policy.normalizeNode.encode = policy'.normalizeNode.encode := by
    simp only [frame, List.append_assoc, List.append_cancel_left_eq] at framed
    exact (List.append_inj framed (by simp)).2
  refine Policy.encode_injective (Policy.short_of_length ?_) encoded
  rw [Policy.encode, List.length_cons, maxEncodedSize] at fits
  omega

/-- Payments with a common artifact under one normal form are equal. -/
theorem Attests.payment_eq (first : Attests sha256 config payment policy authorization)
    (second : Attests sha256 config payment' policy' authorization)
    (same : policy.normalizeNode = policy'.normalizeNode)
    (apart : Set.InjOn (hashToField sha256) {message | message ∈ boundMessages payment policy ++
      boundMessages payment' policy'}) : payment = payment' := by
  have accepted := second.accepted
  rw [← same] at accepted
  have congruent := (verifyPaymentAuthorization_iff_congruent first.accepted).mp accepted
  have hashed : lengthPrefixed paymentIdDomain ++ payment.encode = lengthPrefixed paymentIdDomain ++ payment'.encode :=
    apart (by simp [boundMessages]) (by simp [boundMessages]) congruent.paymentId
  exact Payment.encode_injective (List.append_cancel_left hashed)

/-- An artifact is valid for one payment and for the presentations of one policy,
where the hash does not collide in the field on what they hash. -/
theorem verify_binding (apart : Set.InjOn (hashToField sha256) {message | message ∈ boundMessages payment policy ++
      boundMessages payment' policy'})
    (first : verify sha256 config payment policy authorization = .ok .valid)
    (second : verify sha256 config payment' policy' authorization = .ok .valid) :
    payment = payment' ∧ policy.normalize = policy'.normalize := by
  have attests := verify_valid_iff.mp first
  have attests' := verify_valid_iff.mp second
  have same := attests.normalizeNode_eq attests' apart
  exact ⟨attests.payment_eq attests' same apart, congrArg Outcome.ok same⟩

end Binding

/-- An artifact under a credential is valid under the conjunction of that credential alone. -/
theorem verify_binding_conjunction :
    ∃ authorization,
      verify PaymentAuth.sha256 .default paymentOfFive (.credential (.filled 4)) authorization = .ok .valid ∧
      verify PaymentAuth.sha256 .default paymentOfFive (.and [.credential (.filled 4)]) authorization = .ok .valid ∧
      (Policy.credential (.filled 4)).normalize = (Policy.and [.credential (.filled 4)]).normalize := by
  obtain ⟨authorization, first⟩ :=
    @exists_valid PaymentAuth.sha256 .default paymentOfFive (.credential (.filled 4)) rfl (by decide)
  have second : verify PaymentAuth.sha256 .default paymentOfFive (.and [.credential (.filled 4)]) authorization =
      .ok .valid := by
    have attests := verify_valid_iff.mp first
    exact verify_valid_iff.mpr ⟨attests.configured, attests.backendId, attests.version, attests.policyId,
      attests.circuitId, attests.paymentId, attests.accepted⟩
  have told : ∀ left ∈ boundMessages paymentOfFive (.credential (.filled 4)) ++
      boundMessages paymentOfFive (.and [.credential (.filled 4)]),
      ∀ right ∈ boundMessages paymentOfFive (.credential (.filled 4)) ++
        boundMessages paymentOfFive (.and [.credential (.filled 4)]),
      fromLeBytes (PaymentAuth.sha256 left).bytes % fieldOrder = fromLeBytes (PaymentAuth.sha256 right).bytes % fieldOrder →
        left = right := by decide +kernel
  refine ⟨authorization, first, second, (verify_binding ?_ first second).2⟩
  intro left inside right inside' same
  simp only [hashToField, digestToField, ZMod.natCast_eq_natCast_iff, Nat.ModEq] at same
  exact told left inside right inside' same

end PaymentAuth.Sdk
