import PaymentAuth.Mpcith.Acceptance
import PaymentAuth.Proof.Encoding

namespace PaymentAuth.Proof

open Library

/-- Outcome of verification. -/
inductive VerificationResult where
  | valid
  | invalid
deriving DecidableEq, Repr

/-- The joint transcript, each session numbered by its position. -/
def NonInteractiveProof.sessions (proof : NonInteractiveProof) : List FsSession :=
  proof.repetitions.zipIdx.map fun (repetition, index) => ⟨.ofIndex index, repetition.commitments⟩

/-- Converts a repetition into its inner shape. -/
def toInnerRepetition (repetition : ProofRepetition) (index : ℕ) : Mpcith.Repetition where
  id := .ofIndex index
  commitments := repetition.commitments
  challenge := repetition.challenge
  openedViews := (repetition.openedViews.zip repetition.openingRandomness).map fun (view, randomness) =>
    ⟨view, randomness⟩
  hiddenOutputShares := repetition.hiddenOutputShares
  hiddenBroadcasts := repetition.hiddenBroadcasts

def NonInteractiveProof.inner (proof : NonInteractiveProof) : Mpcith.MpcithProof where
  repetitions := proof.repetitions.zipIdx.map fun (repetition, index) => toInnerRepetition repetition index

/-- Verifies a proof against a circuit and a statement under one backend. -/
def verify (sha256 : Bytes → Digest) (backend : CryptoBackend) (circuit : Circuit FieldElement)
    (statement : Statement) (proof : NonInteractiveProof) : Outcome ProofError VerificationResult := do
  Outcome.reject (proof.backendId ≠ backend.id) .unsupportedBackend
  Outcome.reject (proof.version ≠ protocolVersion ∨ proof.protocolId ≠ protocolId) .invalidVersion
  Outcome.reject (proof.repetitions.isEmpty = true) .verificationFailed
  statement.validate sha256 circuit
  Outcome.reject (proof.statement ≠ statement) .invalidStatement
  let derived ← deriveAll backend statement proof.sessions
  forM (proof.repetitions.zip derived) fun (repetition, challenge) =>
    Outcome.reject (repetition.challenge.hiddenParty ≠ challenge.hiddenParty) .challengeMismatch
  let result ← (Mpcith.verify sha256 backend statement.toMpcith proof.inner circuit).mapError fun _ =>
    .verificationFailed
  match result with
  | .valid => .ok .valid
  | .invalid => .error .outputMismatch

/-- What an accepted proof satisfies. -/
structure Verified (sha256 : Bytes → Digest) (backend : CryptoBackend) (circuit : Circuit FieldElement)
    (statement : Statement) (proof : NonInteractiveProof) : Prop where
  backendId : proof.backendId = backend.id
  version : proof.version = protocolVersion
  protocolId : proof.protocolId = Proof.protocolId
  validated : statement.toMpcith.Validated sha256 circuit
  sameStatement : proof.statement = statement
  challenges : deriveAll backend statement proof.sessions = .ok (proof.repetitions.map ProofRepetition.challenge)
  accepted : ∀ (index : ℕ) (repetition : ProofRepetition), proof.repetitions[index]? = some repetition →
    Mpcith.verifyRepetition backend statement.toMpcith (toInnerRepetition repetition index) circuit = .ok true

theorem NonInteractiveProof.sessions_length (proof : NonInteractiveProof) :
    proof.sessions.length = proof.repetitions.length := by
  simp [sessions]

theorem deriveAll_length {backend : CryptoBackend} {statement : Statement} {sessions : List FsSession}
    {challenges : List Mpcith.Challenge} (derived : deriveAll backend statement sessions = .ok challenges) :
    challenges.length = sessions.length := by
  obtain ⟨-, drawn⟩ := deriveAll_ok_iff.mp derived
  rw [← (Outcome.mapM_ok_iff.mp drawn).length_eq, List.length_range]

theorem Verified.repetitions_ne_nil {sha256 : Bytes → Digest} {backend : CryptoBackend} {circuit : Circuit FieldElement}
    {statement : Statement} {proof : NonInteractiveProof} (verified : Verified sha256 backend circuit statement proof) :
    proof.repetitions ≠ [] := by
  intro empty
  have admitted := (deriveAll_ok_iff.mp verified.challenges).1
  exact admitted.nonempty (by rw [NonInteractiveProof.sessions, empty]; rfl)

/-- Stored challenges that pass the comparison are the derived ones. -/
private theorem checked_challenges {repetitions : List ProofRepetition} {derived : List Mpcith.Challenge}
    (size : derived.length = repetitions.length)
    (checked : ∀ pair ∈ repetitions.zip derived, pair.1.challenge.hiddenParty = pair.2.hiddenParty) :
    derived = repetitions.map ProofRepetition.challenge := by
  refine List.ext_getElem (by rw [size, List.length_map]) fun index below bound => ?_
  rw [List.length_map] at bound
  have paired : (repetitions[index], derived[index]) ∈ repetitions.zip derived := by
    refine List.mem_iff_getElem.mpr ⟨index, ?_, List.getElem_zip⟩
    rw [List.length_zip, size, min_self]
    exact bound
  have same := checked _ paired
  rw [List.getElem_map]
  exact (congrArg Mpcith.Challenge.mk same).symm

private theorem inner_valid_iff {sha256 : Bytes → Digest} {backend : CryptoBackend} {circuit : Circuit FieldElement}
    {statement : Mpcith.Statement} {proof : NonInteractiveProof} :
    Mpcith.verify sha256 backend statement proof.inner circuit = .ok .valid ↔
      statement.Validated sha256 circuit ∧ proof.repetitions ≠ [] ∧
        ∀ (index : ℕ) (repetition : ProofRepetition), proof.repetitions[index]? = some repetition →
          Mpcith.verifyRepetition backend statement (toInnerRepetition repetition index) circuit = .ok true := by
  rw [Mpcith.verify_valid_iff]
  refine and_congr_right fun _ => and_congr ?_ ?_
  · simp [NonInteractiveProof.inner]
  · constructor
    · intro each index repetition found
      refine (each index _ ?_).2
      simp [NonInteractiveProof.inner, found]
    · intro each index inner found
      simp only [NonInteractiveProof.inner, List.getElem?_map, List.getElem?_zipIdx, Nat.zero_add, Option.map_map,
        Option.map_eq_some_iff, Function.comp] at found
      obtain ⟨repetition, here, rfl⟩ := found
      exact ⟨rfl, each index repetition here⟩

/-- The verifier accepts exactly the proofs that meet all its checks. -/
theorem verify_valid_iff {sha256 : Bytes → Digest} {backend : CryptoBackend} {circuit : Circuit FieldElement}
    {statement : Statement} {proof : NonInteractiveProof} :
    verify sha256 backend circuit statement proof = .ok .valid ↔
      Verified sha256 backend circuit statement proof := by
  simp only [verify, Outcome.bind_ok_iff, Outcome.reject_ok_iff, Statement.validate_ok_iff, Outcome.forM_ok_iff,
    Outcome.mapError_ok_iff, exists_const, not_not, not_or]
  constructor
  · rintro ⟨backendId, ⟨version, protocolId⟩, nonempty, validated, sameStatement, derived, drawn, checked, result,
      verified, returned⟩
    cases result with
    | invalid => cases returned
    | valid =>
      obtain ⟨-, -, accepted⟩ := inner_valid_iff.mp verified
      have size := (deriveAll_length drawn).trans proof.sessions_length
      rw [checked_challenges size checked] at drawn
      exact ⟨backendId, version, protocolId, validated, sameStatement, drawn, accepted⟩
  · intro verified
    have nonempty := verified.repetitions_ne_nil
    refine ⟨verified.backendId, ⟨verified.version, verified.protocolId⟩, ?_, verified.validated,
      verified.sameStatement, _, verified.challenges, ?_, .valid,
      inner_valid_iff.mpr ⟨verified.validated, nonempty, verified.accepted⟩, rfl⟩
    · simpa [List.isEmpty_iff] using nonempty
    · intro pair member
      obtain ⟨index, bound, rfl⟩ := List.mem_iff_getElem.mp member
      simp

end PaymentAuth.Proof
