import PaymentAuth.Mpcith.Extraction
import PaymentAuth.Mpcith.Transcript

/-! Responses to a challenge that is known in advance: nothing commits the hidden
party's output shares, so they can be chosen to fit any expected outputs. -/

namespace PaymentAuth.Mpcith

open Library

namespace JointData

/-- The hidden output shares that complete the opened ones to the expected outputs. -/
def forgedOutputShares (data : JointData) (statement : Statement) (circuit : Circuit FieldElement)
    (hidden : PartyId) : List FieldElement :=
  circuit.outputs.zipIdx.map fun (output, k) =>
    if circuit.dependsOnSecrets output.asUsize then
      inputAt statement.expectedOutputs k - openedTotal hidden fun p =>
        (data.partyValue circuit (inputAt statement.publicInputs) p output.asUsize).asField
    else 0

/-- The repetition a joint execution leads to when the hidden output shares are forged. -/
def forgedRepetition (data : JointData) (backend : CryptoBackend) (statement : Statement)
    (circuit : Circuit FieldElement) (id : RepetitionId) (randomness : PartyId → Bytes) (hidden : PartyId) :
    Repetition :=
  data.response circuit (inputAt statement.publicInputs) id randomness
    (data.commitment circuit (inputAt statement.publicInputs) id backend randomness) ⟨hidden⟩
    (data.forgedOutputShares statement circuit hidden)

/-- The execution in which every share is zero. -/
def zero : JointData where
  inputs _ _ := 0
  triples _ := ⟨0, 0, 0⟩

/-- Randomness of the right size. -/
def zeroRandomness (_ : PartyId) : Bytes := List.replicate randomnessLen 0

theorem zeroRandomness_length (p : PartyId) : (zeroRandomness p).length = randomnessLen :=
  List.length_replicate

variable {statement : Statement} {circuit : Circuit FieldElement} {randomness : PartyId → Bytes}

/-- A forged repetition is accepted as soon as its opened views can be encoded,
whatever the statement expects. -/
theorem forgedRepetition_accepted (data : JointData) (backend : CryptoBackend) (valid : circuit.WellFormed)
    (id : RepetitionId) (randomnessSize : ∀ p, (randomness p).length = randomnessLen) {hidden : PartyId}
    (sizes : ∀ p ≠ hidden, commitmentSize circuit p < 2 ^ 32) :
    Accepted backend statement circuit (data.forgedRepetition backend statement circuit id randomness hidden)
      (data.view circuit (inputAt statement.publicInputs) id) randomness
      (data.globals circuit (inputAt statement.publicInputs) id)
      (data.partyValue circuit (inputAt statement.publicInputs)) := by
  refine response_accepted valid (fun p shown => ?_) (by simp [forgedOutputShares]) fun k output found => ?_
  · rw [commitView_view valid backend randomness (randomnessSize p), if_pos (sizes p shown)]
  · have entry : inputAt (data.forgedOutputShares statement circuit hidden) k =
        if circuit.dependsOnSecrets output.asUsize then
          inputAt statement.expectedOutputs k - openedTotal hidden fun p =>
            (data.partyValue circuit (inputAt statement.publicInputs) p output.asUsize).asField
        else 0 := by
      simp [forgedOutputShares, inputAt, found]
    rw [entry]
    split
    · exact sub_add_cancel _ _
    · rfl

/-- Forged repetitions for the three challenges share their commitments. -/
theorem forged_transcripts (data : JointData) (backend : CryptoBackend) (valid : circuit.WellFormed)
    (publicInputs : statement.publicInputs.length = circuit.numPublicInputs)
    (expectedOutputs : statement.expectedOutputs.length = circuit.outputs.length)
    (id : RepetitionId) (randomnessSize : ∀ p, (randomness p).length = randomnessLen)
    (sizes : ∀ p, commitmentSize circuit p < 2 ^ 32) :
    Transcripts backend statement circuit
      (data.forgedRepetition backend statement circuit id randomness) where
  hiddenParty _ := rfl
  id _ _ := rfl
  commitments _ _ := rfl
  accepted _ := (verifyRepetition_true_iff valid publicInputs expectedOutputs).mpr
    ⟨_, _, _, _, forgedRepetition_accepted data backend valid id randomnessSize fun p _ => sizes p⟩
  binding h h' opened member opened' member' same _ := by
    obtain ⟨p, -, rfl⟩ := List.mem_map.mp member
    obtain ⟨p', -, rfl⟩ := List.mem_map.mp member'
    have parties : p = p' := same
    rw [parties]

end JointData

end PaymentAuth.Mpcith
