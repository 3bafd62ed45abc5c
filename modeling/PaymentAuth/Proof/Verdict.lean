import PaymentAuth.Mpcith.Verdict
import PaymentAuth.Proof.Rejection
import PaymentAuth.Proof.Transport

/-! What becomes of a proof of any witness: what the verifier says of it, and whether it arrives. -/

namespace PaymentAuth.Proof

open Library Mpcith

section Conversion

variable {backend : CryptoBackend} {statement : Mpcith.Statement} {circuit : Circuit FieldElement}

/-- A judged proof converts to the non-interactive form and back. -/
theorem inner_converted {inner : MpcithProof} {proof : NonInteractiveProof}
    (same : proof.repetitions = inner.repetitions.map toProofRepetition)
    (judged : ∀ (index : ℕ) (repetition : Repetition), inner.repetitions[index]? = some repetition →
      repetition.id = .ofIndex index ∧ verifyRepetition backend statement repetition circuit = .ok true) :
    proof.inner = inner := by
  have each : proof.inner.repetitions = inner.repetitions := by
    refine List.ext_getElem (by simp [NonInteractiveProof.inner, same]) fun index _ bound => ?_
    obtain ⟨id, accepted⟩ := judged index _ (List.getElem?_eq_getElem bound)
    simp only [NonInteractiveProof.inner, same, List.getElem_map, List.getElem_zipIdx, Nat.zero_add]
    exact toInnerRepetition_toProofRepetition id (openedParties_of_verifyRepetition accepted)
  exact congrArg MpcithProof.mk each

end Conversion

section Decoding

/-- More repetitions than the decoder accepts are refused before the first one is read. -/
theorem deserializeProof_excessive {proof : NonInteractiveProof} (version : proof.version = encodingVersion)
    (protocol : proof.protocolId = protocolId) (supported : proof.backendId ∈ supportedBackendIds)
    (encodable : proof.statement.Encodable) (counted : proof.repetitions.length < 2 ^ 32)
    (many : maxProofRepetitions < proof.repetitions.length) :
    deserializeProof (serializeProof proof) = .error .excessiveRepetitions := by
  have kept : (UInt32.ofNat proof.repetitions.length).toNat = proof.repetitions.length :=
    UInt32.toNat_ofNat_of_lt' counted
  have split : serializeProof proof = header proof.backendId ++ (proof.statement.encode ++
      (toBeBytes 4 (UInt32.ofNat proof.repetitions.length).toNat ++
        proof.repetitions.flatMap ProofRepetition.encode)) := by
    rw [kept]
    simp [serializeProof, header, Reader.encodeList, version, protocol]
  have refused : Refused (serializeProof proof) .excessiveRepetitions := by
    rw [split]
    exact .repetitions _ supported encodable (kept.symm ▸ many)
  rw [deserializeProof, refused.decodeProof_eq, Outcome.error_bind]

end Decoding

namespace Prover

variable {sha256 : Bytes → Digest} {backend : CryptoBackend} {circuit : Circuit FieldElement} {statement : Statement}
  {witness : List FieldElement} {prover : Prover} {repetitionCount : UInt32} {rng next : Rng}
  {proof : NonInteractiveProof}

theorem new_ok_iff : new sha256 circuit statement witness = .ok prover ↔
    statement.toMpcith.Validated sha256 circuit ∧ witness.length = circuit.numSecretInputs ∧
      prover = ⟨circuit, statement, witness⟩ := by
  simp only [new, Outcome.bind_ok_iff, Statement.validate_ok_iff, Outcome.reject_ok_iff, exists_const, not_not,
    Outcome.ok.injEq]
  exact and_congr_right fun _ => and_congr_right fun _ => eq_comm

/-- The verifier's answer is the verdict on the interactive proof that was converted. -/
private theorem verify_converted {inner : MpcithProof} {agree : Bool}
    (validated : statement.toMpcith.Validated sha256 circuit) (nonempty : inner.repetitions ≠ [])
    (made : proof = ⟨protocolVersion, protocolId, backend.id, statement, inner.repetitions.map toProofRepetition⟩)
    (converted : proof.inner = inner)
    (derived : deriveAll backend statement proof.sessions = .ok (inner.repetitions.map Repetition.challenge))
    (judged : Mpcith.verify sha256 backend statement.toMpcith inner circuit =
      .ok (if agree then .valid else .invalid)) :
    verify sha256 backend circuit statement proof = if agree then .ok .valid else .error .outputMismatch := by
  have checked : statement.validate sha256 circuit = .ok () := Statement.validate_ok_iff.mpr validated
  have repeated : proof.repetitions.isEmpty ≠ true := by simpa [made] using nonempty
  have compared : (forM (proof.repetitions.zip (inner.repetitions.map Repetition.challenge)) fun pair =>
      Outcome.reject (pair.1.challenge.hiddenParty ≠ pair.2.hiddenParty) ProofError.challengeMismatch) = .ok () := by
    apply Outcome.forM_ok_iff.mpr
    intro pair listed
    obtain ⟨index, bound, rfl⟩ := List.mem_iff_getElem.mp listed
    simp [made, toProofRepetition]
  have header : proof.backendId = backend.id ∧ proof.version = protocolVersion ∧ proof.protocolId = protocolId ∧
      proof.statement = statement := by
    rw [made]
    exact ⟨rfl, rfl, rfl, rfl⟩
  obtain ⟨backendId, version, protocol, stated⟩ := header
  rw [verify, Outcome.reject_of_not (not_not.mpr backendId), Outcome.ok_bind,
    Outcome.reject_of_not (not_or.mpr ⟨not_not.mpr version, not_not.mpr protocol⟩), Outcome.ok_bind,
    Outcome.reject_of_not repeated, Outcome.ok_bind, checked, Outcome.ok_bind,
    Outcome.reject_of_not (not_not.mpr stated), Outcome.ok_bind, derived, Outcome.ok_bind]
  refine (congrArg (· >>= _) compared).trans ?_
  rw [converted, judged]
  cases agree <;> rfl

/-- A returned proof says what its witness evaluates to: it verifies where the expected outputs
that depend on the secrets are the evaluated ones and is an output mismatch elsewhere. It
arrives unless it has more repetitions than the decoder accepts. -/
theorem prove_delivers (created : new sha256 circuit statement witness = .ok prover)
    (supported : backend.id ∈ supportedBackendIds)
    (proved : prover.prove sha256 backend repetitionCount rng = .ok (proof, next)) :
    ∃ outputs, evaluateReference circuit witness statement.publicInputs = .ok outputs ∧
      proof.repetitions.length = repetitionCount.toNat ∧
      verify sha256 backend circuit statement proof =
        (if agreeOnSecrets circuit outputs statement.expectedOutputs then .ok .valid else .error .outputMismatch) ∧
      deserializeProof (serializeProof proof) =
        if repetitionCount.toNat ≤ maxProofRepetitions then .ok proof else .error .excessiveRepetitions := by
  have aligned := prove_aligned proved
  obtain ⟨validated, witnessCount, rfl⟩ := new_ok_iff.mp created
  have interactive : MpcithProver.newBackend sha256 circuit statement.toMpcith witness =
      .ok ⟨circuit, statement.toMpcith, witness⟩ :=
    MpcithProver.newBackend_ok_iff.mpr ⟨validated, witnessCount, rfl⟩
  obtain ⟨-, inner, joint, made⟩ := (prove_ok_iff interactive).mp proved
  obtain ⟨outputs, evaluates, honest⟩ :=
    @MpcithProver.exists_honest sha256 ⟨circuit, statement.toMpcith, witness⟩ validated witnessCount
  obtain ⟨derived, ids, -⟩ := MpcithProver.proveJointFs_transcript joint
  have size : inner.repetitions.length = repetitionCount.toNat := by simpa using congrArg List.length ids
  rw [← MpcithProver.proveJointFs_expecting] at joint
  have passed := honest.proveJointFs_valid joint
  obtain ⟨expectingValid, nonempty, accepted⟩ := Mpcith.verify_valid_iff.mp passed
  have repetitions : proof.repetitions = inner.repetitions.map toProofRepetition := by rw [made]
  have converted := inner_converted repetitions accepted
  have encodable : ∀ repetition ∈ proof.repetitions, repetition.Encodable := by
    intro repetition inside
    obtain ⟨index, found⟩ := List.mem_iff_getElem?.mp inside
    have original : inner.repetitions[index]? = some (toInnerRepetition repetition index) := by
      rw [← converted]
      simp [NonInteractiveProof.inner, found]
    exact repetition_encodable expectingValid (accepted index _ original).2 (aligned repetition inside)
  have counted : proof.repetitions.length = repetitionCount.toNat := by rw [repetitions, List.length_map, size]
  refine ⟨outputs, evaluates, counted, ?_, ?_⟩
  · rw [Outcome.mapError_ok_iff, ← sessions_eq ids repetitions] at derived
    exact verify_converted validated nonempty made converted derived (verify_expecting validated passed)
  · subst made
    by_cases few : repetitionCount.toNat ≤ maxProofRepetitions
    · rw [if_pos few]
      rw [← counted] at few
      exact deserializeProof_ok_iff.mpr ⟨⟨rfl, rfl, supported, statement_encodable validated, few, encodable⟩, rfl⟩
    · rw [if_neg few]
      rw [← counted, not_le] at few
      exact deserializeProof_excessive rfl rfl supported (statement_encodable validated)
        (counted ▸ repetitionCount.toNat_lt) few

/-- One repetition too many: the proof is valid and does not arrive. -/
theorem prove_delivers_product : ∃ prover proof next,
    new PaymentAuth.sha256 MpcithProver.productCircuit productStatement [2, 3] = .ok prover ∧
      prover.prove PaymentAuth.sha256 (sha256Backend PaymentAuth.sha256) 10001 ⟨MpcithProver.zeroTape, 0, 0⟩ =
        .ok (proof, next) ∧
      verify PaymentAuth.sha256 (sha256Backend PaymentAuth.sha256) MpcithProver.productCircuit productStatement proof =
        .ok .valid ∧
      deserializeProof (serializeProof proof) = .error .excessiveRepetitions := by
  have honest : (⟨MpcithProver.productCircuit, productStatement, [2, 3]⟩ : Prover).interactive.Honest
      PaymentAuth.sha256 := MpcithProver.product_honest
  obtain ⟨proof, next, proved⟩ := @exists_prove PaymentAuth.sha256 _ 10001 ⟨MpcithProver.zeroTape, 0, 0⟩ honest
    (by decide +kernel) (by decide)
  have created : new PaymentAuth.sha256 MpcithProver.productCircuit productStatement [2, 3] =
      .ok ⟨MpcithProver.productCircuit, productStatement, [2, 3]⟩ :=
    new_ok_iff.mpr ⟨honest.validated, honest.witnessCount, rfl⟩
  obtain ⟨outputs, evaluates, -, verified, arrived⟩ := prove_delivers created List.mem_cons_self proved
  have seven : evaluateReference MpcithProver.productCircuit [2, 3] productStatement.publicInputs =
      .ok productStatement.expectedOutputs := honest.evaluates
  obtain rfl := Outcome.ok.inj (evaluates.symm.trans seven)
  have agree : agreeOnSecrets MpcithProver.productCircuit productStatement.expectedOutputs
      productStatement.expectedOutputs = true := by decide +kernel
  rw [agree, if_pos rfl] at verified
  exact ⟨_, proof, next, created, proved, verified, arrived⟩

end Prover

end PaymentAuth.Proof
