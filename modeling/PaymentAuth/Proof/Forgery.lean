import PaymentAuth.Mpcith.Soundness
import PaymentAuth.Proof.Prover

/-! The statements that have an accepted proof. The joint derivation fixes the challenges by
the commitments alone, and the hidden output shares are chosen after it. -/

namespace PaymentAuth.Proof

open Library Mpcith

section Forgery

variable {sha256 : Bytes → Digest} {backend : CryptoBackend} {circuit : Circuit FieldElement} {statement : Statement}
  {challenges : List Challenge} {count : ℕ}

/-- The response to a challenge over all-zero shares. -/
def forgedResponse (backend : CryptoBackend) (circuit : Circuit FieldElement) (statement : Statement)
    (challenge : Challenge) (index : ℕ) : Repetition :=
  JointData.zero.forgedRepetition backend statement.toMpcith circuit (.ofIndex index) JointData.zeroRandomness
    challenge.hiddenParty

/-- Repetitions over all-zero shares that answer the given challenges. -/
def forged (backend : CryptoBackend) (circuit : Circuit FieldElement) (statement : Statement)
    (challenges : List Challenge) : NonInteractiveProof where
  version := protocolVersion
  protocolId := protocolId
  backendId := backend.id
  statement := statement
  repetitions := challenges.zipIdx.map fun (challenge, index) =>
    toProofRepetition (forgedResponse backend circuit statement challenge index)

theorem forged_getElem? {index : ℕ} {repetition : ProofRepetition}
    (found : (forged backend circuit statement challenges).repetitions[index]? = some repetition) :
    ∃ challenge, challenges[index]? = some challenge ∧
      repetition = toProofRepetition (forgedResponse backend circuit statement challenge index) := by
  rw [forged, List.getElem?_map, List.getElem?_zipIdx, Option.map_map, Option.map_eq_some_iff] at found
  obtain ⟨challenge, here, rfl⟩ := found
  refine ⟨challenge, here, ?_⟩
  simp

theorem forged_challenges :
    (forged backend circuit statement challenges).repetitions.map ProofRepetition.challenge = challenges := by
  rw [forged, List.map_map]
  exact List.zipIdx_map_fst 0 challenges

/-- What a repetition commits to before any challenge is known. -/
def forgedSession (backend : CryptoBackend) (circuit : Circuit FieldElement) (statement : Statement) (index : ℕ) :
    FsSession :=
  ⟨.ofIndex index, (forgedResponse backend circuit statement ⟨0⟩ index).commitments⟩

/-- The commitments of the forged repetitions do not depend on the challenges. -/
theorem forged_sessions : (forged backend circuit statement challenges).sessions =
    (List.range challenges.length).map (forgedSession backend circuit statement) := by
  have size : (forged backend circuit statement challenges).sessions.length = challenges.length := by
    rw [NonInteractiveProof.sessions_length, forged, List.length_map, List.length_zipIdx]
  apply List.ext_getElem
  · rw [size, List.length_map, List.length_range]
  · intro index below bound
    simp only [NonInteractiveProof.sessions, forged, List.getElem_map, List.getElem_zipIdx, List.getElem_range,
      zero_add]
    rfl

/-- The inner verifier accepts a forged repetition whatever is expected. -/
theorem forged_accepted (validated : statement.toMpcith.Validated sha256 circuit)
    (sizes : ∀ p, commitmentSize circuit p < 2 ^ 32) (challenge : Challenge) (index : ℕ) :
    Mpcith.verifyRepetition backend statement.toMpcith
      (toInnerRepetition (toProofRepetition (forgedResponse backend circuit statement challenge index)) index) circuit =
        .ok true := by
  have ordered : (forgedResponse backend circuit statement challenge index).openedViews.map
      (fun opened => opened.view.partyId) = PartyId.others challenge.hiddenParty := by
    rw [forgedResponse, JointData.forgedRepetition, JointData.response, List.map_map]
    exact List.map_id _
  have kept := @toInnerRepetition_toProofRepetition (forgedResponse backend circuit statement challenge index) index rfl
    ordered
  rw [kept]
  apply (verifyRepetition_true_iff validated.wellFormed validated.publicInputs validated.expectedOutputs).mpr
  exact ⟨_, _, _, _, JointData.forgedRepetition_accepted .zero backend validated.wellFormed (.ofIndex index)
    JointData.zeroRandomness_length fun p _ => sizes p⟩

/-- The challenges of the forged commitments are derived first and answered after. -/
theorem exists_verified (validated : statement.toMpcith.Validated sha256 circuit)
    (sizes : ∀ p, commitmentSize circuit p < 2 ^ 32) (several : count ≠ 0) :
    ∃ proof, proof.repetitions.length = count ∧
      Verified sha256 (sha256Backend sha256) circuit statement proof := by
  let sessions := (List.range count).map (forgedSession (sha256Backend sha256) circuit statement)
  have admitted : Admitted sessions := by
    refine ⟨fun none => ?_, fun session inside => ?_⟩
    · rw [List.map_eq_nil_iff, List.range_eq_nil] at none
      exact several none
    · obtain ⟨index, -, rfl⟩ := List.mem_map.mp inside
      rfl
  obtain ⟨challenges, derived, size⟩ := @exists_deriveAll sha256 statement sessions admitted
  rw [List.length_map, List.length_range] at size
  refine ⟨forged (sha256Backend sha256) circuit statement challenges, ?_, ?_⟩
  · rw [forged, List.length_map, List.length_zipIdx, size]
  · refine ⟨rfl, rfl, rfl, validated, rfl, ?_, fun index repetition found => ?_⟩
    · rw [forged_sessions, forged_challenges, size]
      exact derived
    · obtain ⟨challenge, -, rfl⟩ := forged_getElem? found
      exact forged_accepted validated sizes challenge index

/-- A statement has an accepted proof exactly when it fits its circuit: what it expects of
the circuit's outputs plays no role, and neither does the number of repetitions. -/
theorem exists_proof_iff (sizes : ∀ p, commitmentSize circuit p < 2 ^ 32) :
    (∃ proof, proof.repetitions.length = count ∧
      verify sha256 (sha256Backend sha256) circuit statement proof = .ok .valid) ↔
      statement.toMpcith.Validated sha256 circuit ∧ count ≠ 0 := by
  constructor
  · rintro ⟨proof, rfl, verified⟩
    have accepted := verify_valid_iff.mp verified
    exact ⟨accepted.validated, fun none => accepted.repetitions_ne_nil (List.length_eq_zero_iff.mp none)⟩
  · rintro ⟨validated, several⟩
    obtain ⟨proof, size, verified⟩ := exists_verified validated sizes several
    exact ⟨proof, size, verify_valid_iff.mpr verified⟩

/-- A secret times zero is one. -/
def zeroedStatement : Statement := ⟨Transcripts.zeroedStatement.circuitId, [], [1]⟩

theorem zeroedStatement_validated :
    zeroedStatement.toMpcith.Validated PaymentAuth.sha256 Transcripts.zeroedCircuit := by
  have checked : Transcripts.zeroedCircuit.validate = .ok () := by decide +kernel
  exact ⟨Circuit.validate_ok_iff.mp checked, rfl, rfl, rfl⟩

theorem zeroedCircuit_sizes : ∀ p, commitmentSize Transcripts.zeroedCircuit p < 2 ^ 32 := by decide +kernel

/-- Twelve repetitions prove it. -/
theorem exists_proof_iff_zeroed : ∃ proof : NonInteractiveProof, proof.repetitions.length = 12 ∧
    verify PaymentAuth.sha256 (sha256Backend PaymentAuth.sha256) Transcripts.zeroedCircuit zeroedStatement proof =
      .ok .valid :=
  (exists_proof_iff zeroedCircuit_sizes).mpr ⟨zeroedStatement_validated, by decide⟩

end Forgery

end PaymentAuth.Proof
