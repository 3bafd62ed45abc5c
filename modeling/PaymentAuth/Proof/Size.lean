import PaymentAuth.Proof.Forgery
import PaymentAuth.Proof.Oversized
import PaymentAuth.Proof.Transport

/-! The wire size of an accepted proof: the circuit and the challenges decide it, the witness
and the randomness of the prover do not. -/

namespace PaymentAuth.Proof

open Library Mpcith

section Size

variable {sha256 : Bytes → Digest} {backend : CryptoBackend} {circuit : Circuit FieldElement} {statement : Statement}
  {proof : NonInteractiveProof} {repetition : ProofRepetition} {index : ℕ}

/-- The encoded size of an opening of one party's view. -/
def openingSize (circuit : Circuit FieldElement) (party : PartyId) : ℕ := commitmentSize circuit party - 3

/-- The encoded size of a repetition that hides the given party. -/
def repetitionSize (circuit : Circuit FieldElement) (hidden : PartyId) : ℕ :=
  109 + 64 * circuit.tripleCount + 32 * circuit.outputs.length +
    ((PartyId.others hidden).map (openingSize circuit)).sum

/-- The encoded size of a proof over the given hidden parties. -/
def proofSize (circuit : Circuit FieldElement) (hidden : List PartyId) : ℕ :=
  63 + 32 * circuit.numPublicInputs + 32 * circuit.outputs.length + (hidden.map (repetitionSize circuit)).sum

theorem encodeElements_length (elements : List FieldElement) :
    (Reader.encodeList elementToBeBytes elements).length = 4 + 32 * elements.length := by
  rw [Reader.encodeList, List.length_append, toBeBytes_length, flatMap_length_of_const elementToBeBytes_length]

theorem encodeOpening_length (opening : PartyView × Bytes) (full : opening.2.length = randomnessLen) :
    (encodeOpening opening).length = (commitmentMessage opening.1).length - 3 := by
  rw [encodeOpening, List.length_append, lengthPrefixed_length, full, commitmentMessage_length_eq, randomnessLen]
  omega

/-- An accepted repetition has the size of its circuit. -/
theorem Verified.repetition_length (verified : Verified sha256 backend circuit statement proof)
    (found : proof.repetitions[index]? = some repetition) :
    repetition.encode.length = repetitionSize circuit repetition.challenge.hiddenParty := by
  have valid := verified.validated
  obtain ⟨views, randomness, globals, value, held⟩ := (verifyRepetition_true_iff valid.wellFormed valid.publicInputs
    valid.expectedOutputs).mp (verified.accepted index repetition found)
  have commitments : repetition.commitments.length = 3 := held.commitments
  have broadcasts : repetition.hiddenBroadcasts.length = 2 * circuit.tripleCount := held.broadcasts
  have outputs : repetition.hiddenOutputShares.length = circuit.outputs.length := held.outputShares
  have opened := zip_of_openedViews held.openedViews
  have openings : ((repetition.openedViews.zip repetition.openingRandomness).flatMap encodeOpening).length =
      ((PartyId.others repetition.challenge.hiddenParty).map (openingSize circuit)).sum := by
    rw [opened, List.length_flatMap, List.map_map]
    congr 1
    apply List.map_congr_left
    intro p listed
    have shown := PartyId.mem_others_iff.mp listed
    obtain ⟨commitment, -, committed⟩ := held.committed p shown
    obtain ⟨full, -, -⟩ := commitView_ok_iff.mp committed
    rw [Function.comp_apply, encodeOpening_length _ full, (held.coherent p shown).commitmentMessage_length
      valid.wellFormed, held.party p shown, openingSize]
  have digests : (repetition.commitments.flatMap Digest.bytes).length = 96 := by
    rw [flatMap_length_of_const Digest.size, commitments, digestLen]
  simp only [ProofRepetition.encode, List.length_append, digests, encodeElements_length, broadcasts, outputs, openings,
    toBeBytes_length, List.length_singleton, repetitionSize]
  omega

/-- The size of an accepted proof follows from its circuit and the hidden parties. -/
theorem serializeProof_length (verified : verify sha256 backend circuit statement proof = .ok .valid) :
    (serializeProof proof).length =
      proofSize circuit (proof.repetitions.map fun repetition => repetition.challenge.hiddenParty) := by
  have accepted := verify_valid_iff.mp verified
  have publicInputs : statement.publicInputs.length = circuit.numPublicInputs := accepted.validated.publicInputs
  have expectedOutputs : statement.expectedOutputs.length = circuit.outputs.length := accepted.validated.expectedOutputs
  have repetitions : (proof.repetitions.flatMap ProofRepetition.encode).length =
      (proof.repetitions.map fun repetition => repetitionSize circuit repetition.challenge.hiddenParty).sum := by
    rw [List.length_flatMap]
    congr 1
    apply List.map_congr_left
    intro repetition inside
    obtain ⟨index, found⟩ := List.mem_iff_getElem?.mp inside
    exact accepted.repetition_length found
  have framed : (Reader.encodeList ProofRepetition.encode proof.repetitions).length =
      4 + (proof.repetitions.flatMap ProofRepetition.encode).length := by
    rw [Reader.encodeList, List.length_append, toBeBytes_length]
  have header : proof.statement.encode.length =
      41 + 32 * circuit.numPublicInputs + 32 * circuit.outputs.length := by
    rw [accepted.sameStatement]
    simp only [Statement.encode, List.length_append, encodeElements_length, publicInputs, expectedOutputs, Digest.size,
      digestLen, List.length_singleton]
    omega
  simp only [serializeProof, List.length_append, header, framed, repetitions, BackendId.size, backendIdLen, proofSize,
    List.map_map, Function.comp_def, List.length_cons, List.length_nil]
  omega

/-- Three hidden parties decide the size of a proof of three repetitions. -/
theorem serializeProof_length_zeroed : ∃ proof : NonInteractiveProof, proof.repetitions.length = 3 ∧
    (serializeProof proof).length = proofSize Transcripts.zeroedCircuit
      (proof.repetitions.map fun repetition => repetition.challenge.hiddenParty) := by
  obtain ⟨proof, size, verified⟩ := exists_verified zeroedStatement_validated zeroedCircuit_sizes (show 3 ≠ 0 by decide)
  exact ⟨proof, size, serializeProof_length (verify_valid_iff.mpr verified)⟩

end Size

end PaymentAuth.Proof
