import PaymentAuth.Sdk.Agreement

/-! How many repetitions the verifiers insist on: the prover chooses the number, and
nothing on the verifying side asks for more than one. -/

namespace PaymentAuth.Sdk

open Library

section Counting

variable {α : Type} {accepted : α → Prop} {length : α → ℕ} {possible : Prop} {bound count : ℕ}

/-- Where the accepted items, once there are any, have all positive lengths of 32 bits, a
bound holds of those of one length exactly when the length is zero or within the bound. -/
private theorem bounded_iff (small : bound ≤ 2 ^ 32)
    (needed : ∀ item, accepted item → possible ∧ length item ≠ 0)
    (every : possible → ∀ count : UInt32, count ≠ 0 → ∃ item, accepted item ∧ length item = count.toNat) :
    (∀ item, accepted item → length item = count → bound ≤ count) ↔ (possible → count = 0 ∨ bound ≤ count) := by
  constructor
  · intro bounded able
    by_cases wide : count < 2 ^ 32
    · by_cases zero : count = 0
      · exact Or.inl zero
      · have back : (UInt32.ofNat count).toNat = count := UInt32.toNat_ofNat_of_lt' wide
        have positive : UInt32.ofNat count ≠ 0 := by
          intro none
          rw [none] at back
          exact zero back.symm
        obtain ⟨item, good, same⟩ := every able (UInt32.ofNat count) positive
        exact Or.inr (bounded item good (same.trans back))
    · exact Or.inr (small.trans (not_lt.mp wide))
  · intro enough item good same
    obtain ⟨able, nonzero⟩ := needed item good
    rcases enough able with zero | above
    · exact absurd (same.trans zero) nonzero
    · exact above

end Counting

section Repetitions

variable {sha256 : Bytes → Digest} {statement : PaymentStatement} {config : SdkConfig} {payment : Payment}
  {policy : Policy} {authorization : Authorization}

theorem Attests.repetitions_ne_zero (attests : Attests sha256 config payment policy authorization) :
    authorization.proof.repetitions.length ≠ 0 := by
  rw [ne_eq, List.length_eq_zero_iff]
  exact repetitions_ne_nil attests.accepted

/-- Both verifiers enforce the number of repetitions of exactly the proofs that have none or
enough of them: the payment verifier for every statement that carries the ids of its policy,
the SDK for every policy with a valid normal form under its own backend. -/
theorem repetitions_enforced_iff (count : ℕ) :
    ((∀ proof, verifyPaymentAuthorization sha256 statement proof policy = .ok true →
        proof.repetitions.length = count → authorizationRepetitions.toNat ≤ count) ↔
      (statement.Names sha256 policy → count = 0 ∨ authorizationRepetitions.toNat ≤ count)) ∧
    ((∀ authorization, verify sha256 config payment policy authorization = .ok .valid →
        authorization.proof.repetitions.length = count → authorizationRepetitions.toNat ≤ count) ↔
      (config.backendId = (sha256Backend sha256).id ∧ policy.normalizeNode.validate = .ok () →
        count = 0 ∨ authorizationRepetitions.toNat ≤ count)) := by
  constructor
  · refine bounded_iff (by decide) (fun proof accepted => ?_) fun names count positive => exists_accepted names positive
    refine ⟨names_of_accepted accepted, ?_⟩
    rw [ne_eq, List.length_eq_zero_iff]
    exact repetitions_ne_nil accepted
  · refine bounded_iff (by decide) (fun authorization accepted => ?_) fun ⟨configured, valid⟩ count positive =>
      exists_valid_count configured valid positive
    have attests := verify_valid_iff.mp accepted
    exact ⟨⟨attests.configured.symm.trans attests.backendId, attests.valid⟩, attests.repetitions_ne_zero⟩

/-- The verifiers accept proofs of twelve repetitions, which are enough, and proofs of one. -/
theorem repetitions_enforced_iff_credential : ∃ statement,
    (∃ proof, verifyPaymentAuthorization PaymentAuth.sha256 statement proof (.credential (.filled 4)) = .ok true ∧
        proof.repetitions.length = 12) ∧
      (∀ proof, verifyPaymentAuthorization PaymentAuth.sha256 statement proof (.credential (.filled 4)) = .ok true →
          proof.repetitions.length = 12 → authorizationRepetitions.toNat ≤ 12) ∧
      (∀ authorization, verify PaymentAuth.sha256 .default paymentOfFive (.credential (.filled 4)) authorization =
          .ok .valid → authorization.proof.repetitions.length = 12 → authorizationRepetitions.toNat ≤ 12) ∧
      ¬ (∀ proof, verifyPaymentAuthorization PaymentAuth.sha256 statement proof (.credential (.filled 4)) = .ok true →
          proof.repetitions.length = 1 → authorizationRepetitions.toNat ≤ 1) ∧
      ¬ ∀ authorization, verify PaymentAuth.sha256 .default paymentOfFive (.credential (.filled 4)) authorization =
          .ok .valid → authorization.proof.repetitions.length = 1 → authorizationRepetitions.toNat ≤ 1 := by
  have valid : (Policy.credential (.filled 4)).normalizeNode.validate = .ok () := by decide
  obtain ⟨policyId, circuitId, names⟩ := @exists_names PaymentAuth.sha256 _ valid 5
  obtain ⟨payments, artifacts⟩ := @repetitions_enforced_iff PaymentAuth.sha256
    { filledStatement 5 with policyId := policyId, circuitId := circuitId } .default paymentOfFive
    (.credential (.filled 4)) 12
  obtain ⟨payments', artifacts'⟩ := @repetitions_enforced_iff PaymentAuth.sha256
    { filledStatement 5 with policyId := policyId, circuitId := circuitId } .default paymentOfFive
    (.credential (.filled 4)) 1
  have enough : 12 = 0 ∨ authorizationRepetitions.toNat ≤ 12 := by decide
  have few : ¬ (1 = 0 ∨ authorizationRepetitions.toNat ≤ 1) := by decide
  refine ⟨_, exists_accepted names (show (12 : UInt32) ≠ 0 by decide), payments.mpr fun _ => enough,
    artifacts.mpr fun _ => enough, ?_, ?_⟩
  · exact fun enforced => few (payments'.mp enforced names)
  · exact fun enforced => few (artifacts'.mp enforced ⟨rfl, valid⟩)

/-- Both verifiers accept one repetition. -/
theorem repetitions_not_enforced :
    (∃ statement proof,
      verifyPaymentAuthorization PaymentAuth.sha256 statement proof (.credential (.filled 4)) = .ok true ∧
        proof.repetitions.length = 1) ∧
      (∃ authorization,
        verify PaymentAuth.sha256 .default paymentOfFive (.credential (.filled 4)) authorization = .ok .valid ∧
          authorization.proof.repetitions.length = 1) ∧
      1 < authorizationRepetitions.toNat := by
  have valid : (Policy.credential (.filled 4)).normalizeNode.validate = .ok () := by decide
  obtain ⟨policyId, circuitId, names⟩ := @exists_names PaymentAuth.sha256 _ valid 5
  refine ⟨⟨_, exists_accepted names (show (1 : UInt32) ≠ 0 by decide)⟩, ?_, by decide⟩
  exact exists_valid_count rfl valid (show (1 : UInt32) ≠ 0 by decide)

end Repetitions

end PaymentAuth.Sdk
