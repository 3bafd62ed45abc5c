import PaymentAuth.Proof.Prover

/-! Accepted proofs have the shape that the decoder accepts. -/

namespace PaymentAuth

open Library Mpcith

section Views

variable {circuit : Circuit FieldElement} {publics : ℕ → FieldElement} {globals : List FieldElement}
  {value : ℕ → NodeVal FieldElement} {view : PartyView}

/-- The operations of a coherent view name triples that exist. -/
theorem Mpcith.PartyView.Coherent.operation_encodable (coherent : view.Coherent circuit publics globals value)
    (small : circuit.nodes.length < 2 ^ 32) {operation : LocalOperation}
    (inside : operation ∈ view.localOperations) : operation.Encodable := by
  rw [coherent.localOperations] at inside
  obtain ⟨n, recorded, rfl⟩ := List.mem_map.mp inside
  have bound := List.mem_range.mp (List.mem_filter.mp recorded).1
  have triple : circuit.tripleRank n < 2 ^ 32 := ((rank_le _ n).trans bound.le).trans_lt small
  unfold PartyData.operationAt
  split
  · unfold PartyData.mulOperation
    split
    · trivial
    · trivial
    · exact triple
  · trivial
  · trivial

/-- A committed coherent view can be encoded and decoded. -/
theorem Mpcith.PartyView.Coherent.opening_encodable (coherent : view.Coherent circuit publics globals value)
    (valid : circuit.WellFormed) (small : circuit.nodes.length < 2 ^ 32) {backend : CryptoBackend}
    {randomness : Bytes} {commitment : ViewCommitment}
    (committed : commitView backend view randomness = .ok commitment) : Proof.OpeningEncodable (view, randomness) := by
  obtain ⟨full, short, -⟩ := commitView_ok_iff.mp committed
  have size := Mpcith.commitmentMessage_length view
  have whole : (encodeView view).length ≤ (commitmentMessage view).length := by
    rw [commitmentMessage, List.length_append]
    exact Nat.le_add_left _ _
  have secrets : circuit.numSecretInputs ≤ circuit.nodes.length := by
    rw [← valid.secretInputs]
    exact List.countP_le_length
  have triples : circuit.tripleCount ≤ circuit.nodes.length := rank_le _ _
  have opened : view.openedValues.length < 2 ^ 32 := by omega
  refine ⟨⟨?_, ?_, fun _ inside => coherent.operation_encodable small inside, ?_, opened⟩, whole.trans_lt short, full⟩
  · rw [coherent.inputShares]
    omega
  · rw [coherent.localOperations, List.length_map]
    exact (rank_le _ _).trans_lt small
  · rw [coherent.tripleShares]
    omega

end Views

namespace Proof

variable {sha256 : Bytes → Digest} {backend : CryptoBackend} {circuit : Circuit FieldElement} {statement : Statement}
  {proof : NonInteractiveProof}

/-- The openings that an inner repetition shows are those of the repetition itself. -/
theorem zip_of_openedViews {repetition : ProofRepetition} {index : ℕ} {parties : List PartyId}
    {views : PartyId → PartyView} {randomness : PartyId → Bytes}
    (opened : (toInnerRepetition repetition index).openedViews = parties.map fun p => ⟨views p, randomness p⟩) :
    repetition.openedViews.zip repetition.openingRandomness = parties.map fun p => (views p, randomness p) := by
  have same := congrArg (List.map fun opening => (opening.view, opening.randomness)) opened
  rw [toInnerRepetition, List.map_map, List.map_map] at same
  exact (List.map_id _).symm.trans same

/-- An accepted repetition with a randomness for each view has the decoder's shape. -/
theorem repetition_encodable {statement : Mpcith.Statement} (validated : statement.Validated sha256 circuit)
    {repetition : ProofRepetition} {index : ℕ}
    (verified : verifyRepetition backend statement (toInnerRepetition repetition index) circuit = .ok true)
    (aligned : repetition.openedViews.length = repetition.openingRandomness.length) : repetition.Encodable := by
  have small := validated.nodes_lt
  obtain ⟨views, randomness, globals, value, accepted⟩ :=
    (verifyRepetition_true_iff validated.wellFormed validated.publicInputs validated.expectedOutputs).mp verified
  have opened := zip_of_openedViews accepted.openedViews
  have two : (repetition.openedViews.zip repetition.openingRandomness).length = 2 := by
    rw [opened, List.length_map, PartyId.others_length]
  rw [List.length_zip, ← aligned, min_self] at two
  have encodable (p : PartyId) (shown : p ≠ repetition.challenge.hiddenParty) :
      OpeningEncodable (views p, randomness p) := by
    obtain ⟨_, _, committed⟩ := accepted.committed p shown
    exact (accepted.coherent p shown).opening_encodable validated.wellFormed small committed
  refine ⟨accepted.commitments, ?_, ?_, two, aligned ▸ two, fun opening listed => ?_⟩
  · obtain ⟨p, shown⟩ : ∃ p, p ≠ repetition.challenge.hiddenParty := exists_ne _
    have masks := (eq_flatMap_marked_iff.mp (accepted.coherent p shown).openedValues).1
    rw [show repetition.hiddenBroadcasts.length = 2 * circuit.tripleCount from accepted.broadcasts, Circuit.tripleCount,
      Circuit.tripleRank, ← masks]
    exact (encodable p shown).view.openedValues
  · rw [show repetition.hiddenOutputShares.length = circuit.outputs.length from accepted.outputShares]
    exact (Circuit.computeId_ok_bounds validated.circuitId).2
  · rw [opened, List.mem_map] at listed
    obtain ⟨p, other, rfl⟩ := listed
    exact encodable p (PartyId.mem_others_iff.mp other)

/-- The counts of a validated statement fit their fields. -/
theorem statement_encodable (validated : statement.toMpcith.Validated sha256 circuit) : statement.Encodable where
  publicInputs := by
    rw [show statement.publicInputs.length = circuit.numPublicInputs from validated.publicInputs,
      ← validated.wellFormed.publicInputs]
    exact List.countP_le_length.trans_lt validated.nodes_lt
  expectedOutputs := by
    rw [show statement.expectedOutputs.length = circuit.outputs.length from validated.expectedOutputs]
    exact (Circuit.computeId_ok_bounds validated.circuitId).2

/-- An accepted proof with a randomness for each view has the decoder's shape. -/
theorem Verified.encodable (verified : Verified sha256 backend circuit statement proof)
    (supported : backend.id ∈ supportedBackendIds) (few : proof.repetitions.length ≤ maxProofRepetitions)
    (aligned : ∀ repetition ∈ proof.repetitions,
      repetition.openedViews.length = repetition.openingRandomness.length) : proof.Encodable where
  version := verified.version
  protocolId := verified.protocolId
  backendId := verified.backendId ▸ supported
  statement := verified.sameStatement ▸ statement_encodable verified.validated
  repetitions := few
  each := by
    intro repetition inside
    obtain ⟨index, found⟩ := List.mem_iff_getElem?.mp inside
    exact repetition_encodable verified.validated (verified.accepted index repetition found) (aligned repetition inside)

/-- The opened views of an accepted proof were committed to. -/
theorem Verified.message_lt (verified : Verified sha256 backend circuit statement proof) {repetition : ProofRepetition}
    (inside : repetition ∈ proof.repetitions)
    (aligned : repetition.openedViews.length = repetition.openingRandomness.length) {view : PartyView}
    (shown : view ∈ repetition.openedViews) : (commitmentMessage view).length < 2 ^ 32 := by
  obtain ⟨index, found⟩ := List.mem_iff_getElem?.mp inside
  have validated := verified.validated
  obtain ⟨views, randomness, globals, value, accepted⟩ := (verifyRepetition_true_iff validated.wellFormed
    validated.publicInputs validated.expectedOutputs).mp (verified.accepted index repetition found)
  have listed := congrArg (List.map Prod.fst) (zip_of_openedViews accepted.openedViews)
  rw [List.map_fst_zip aligned.le, List.map_map] at listed
  rw [listed] at shown
  obtain ⟨p, other, rfl⟩ := List.mem_map.mp shown
  obtain ⟨_, _, committed⟩ := accepted.committed p (PartyId.mem_others_iff.mp other)
  exact (commitView_ok_iff.mp committed).2.1

end Proof

end PaymentAuth
