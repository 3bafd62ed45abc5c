import PaymentAuth.Mpcith.Completeness
import PaymentAuth.Proof.Verifier

namespace PaymentAuth.Proof

open Library Mpcith

/-- A circuit, a statement and a witness to prove it with. -/
structure Prover where
  circuit : Circuit FieldElement
  statement : Statement
  witness : List FieldElement

/-- Converts an interactive repetition, its views and their randomness aligned by party. -/
def toProofRepetition (repetition : Repetition) : ProofRepetition :=
  let pairs := repetition.openedViews.insertionSort fun left right => left.view.partyId ≤ right.view.partyId
  { commitments := repetition.commitments
    challenge := repetition.challenge
    openedViews := pairs.map OpenedView.view
    openingRandomness := pairs.map OpenedView.randomness
    hiddenBroadcasts := repetition.hiddenBroadcasts
    hiddenOutputShares := repetition.hiddenOutputShares }

namespace Prover

/-- Creates a prover after validating the statement and counting the witness. -/
def new (sha256 : Bytes → Digest) (circuit : Circuit FieldElement) (statement : Statement)
    (witness : List FieldElement) : Outcome ProofError Prover := do
  statement.validate sha256 circuit
  Outcome.reject (witness.length ≠ circuit.numSecretInputs) .invalidWitness
  .ok ⟨circuit, statement, witness⟩

/-- The sessions a joint prover hands to the challenge derivation. -/
def fsSessions (sessions : List (RepetitionId × List ViewCommitment)) : List FsSession :=
  sessions.map fun (id, commitments) => ⟨id, commitments⟩

/-- Generates a proof; all challenges come from one joint derivation. -/
def prove (sha256 : Bytes → Digest) (backend : CryptoBackend) (prover : Prover) (repetitionCount : UInt32)
    (rng : Rng) : Outcome ProofError (NonInteractiveProof × Rng) := do
  Outcome.reject (repetitionCount = 0) .invalidStatement
  let inner ← (MpcithProver.newBackend sha256 prover.circuit prover.statement.toMpcith prover.witness).mapError
    fun _ => ProofError.verificationFailed
  let (interactive, rng) ← (inner.proveJointFs backend repetitionCount
    (fun sessions => (deriveAll backend prover.statement (fsSessions sessions)).mapError
      fun _ => .invalidProtocolState) rng).mapError fun _ => ProofError.verificationFailed
  .ok (⟨protocolVersion, protocolId, backend.id, prover.statement, interactive.repetitions.map toProofRepetition⟩, rng)

/-- The interactive prover that a prover drives. -/
def interactive (prover : Prover) : MpcithProver := ⟨prover.circuit, prover.statement.toMpcith, prover.witness⟩

end Prover

section Conversion

variable {sha256 : Bytes → Digest} {backend : CryptoBackend} {circuit : Circuit FieldElement}

/-- Views in party order stay as they are. -/
theorem toInnerRepetition_toProofRepetition {repetition : Repetition} {index : ℕ} (id : repetition.id = .ofIndex index)
    (sorted : repetition.openedViews.map (fun opened => opened.view.partyId) =
      PartyId.others repetition.challenge.hiddenParty) :
    toInnerRepetition (toProofRepetition repetition) index = repetition := by
  have ordered := PartyId.others_sorted repetition.challenge.hiddenParty
  rw [← sorted, List.pairwise_map] at ordered
  have same : (repetition.openedViews.insertionSort fun left right => left.view.partyId ≤ right.view.partyId) =
      repetition.openedViews := List.Pairwise.insertionSort_eq ordered
  have paired : (toInnerRepetition (toProofRepetition repetition) index).openedViews = repetition.openedViews := by
    rw [toInnerRepetition, toProofRepetition, same, List.zip_map', List.map_map]
    exact List.map_id _
  cases repetition
  simp only [toInnerRepetition, Repetition.mk.injEq]
  exact ⟨id.symm, rfl, rfl, paired, rfl, rfl⟩

end Conversion

section Derivation

variable {sha256 : Bytes → Digest} {statement : Statement} {sessions : List FsSession}

/-- Every session of a transcript is given a challenge. -/
theorem exists_deriveChallenge {selector : ℕ} (inRange : selector < sessions.length) :
    ∃ challenge, deriveChallenge (sha256Backend sha256) statement sessions selector = .ok challenge := by
  have small (n : ℕ) : ∃ party, PartyId.new (UInt8.ofNat (n % 3)) = .ok party := by
    have bound : (UInt8.ofNat (n % 3)).toNat < partyCount := by
      have below : n % 3 < 3 := Nat.mod_lt _ (by decide)
      rw [UInt8.toNat_ofNat_of_lt' (below.trans (by decide))]
      exact below
    exact ⟨_, dif_pos bound⟩
  have expanded (input : Bytes) : 8 ≤ ((sha256Backend sha256).expand domainFs input 64).length := by
    rw [sha256Backend_expand_length]
    decide
  simp only [deriveChallenge, fsInput, List.getElem?_eq_getElem inRange, Outcome.okOr_some, Outcome.ok_bind,
    Outcome.assert_of (expanded _)]
  obtain ⟨party, drawn⟩ := small (fromBeBytes (((sha256Backend sha256).expand domainFs _ 64).take 8))
  rw [drawn]
  exact ⟨⟨party⟩, rfl⟩

theorem exists_deriveAll (admitted : Admitted sessions) :
    ∃ challenges, deriveAll (sha256Backend sha256) statement sessions = .ok challenges ∧
      challenges.length = sessions.length := by
  obtain ⟨challenges, drawn, pointwise⟩ := @Outcome.mapM_exists ProofError ℕ Challenge
    (deriveChallenge (sha256Backend sha256) statement sessions) (fun _ _ => True) (List.range sessions.length)
    fun selector inside => by
      obtain ⟨challenge, derived⟩ := exists_deriveChallenge (List.mem_range.mp inside)
      exact ⟨challenge, derived, trivial⟩
  exact ⟨challenges, deriveAll_ok_iff.mpr ⟨admitted, drawn⟩, by simpa using pointwise.length_eq.symm⟩

end Derivation

namespace Prover

variable {sha256 : Bytes → Digest} {backend : CryptoBackend} {prover : Prover} {repetitionCount : UInt32} {rng next : Rng}
  {proof : NonInteractiveProof}

theorem new_ok {circuit : Circuit FieldElement} {statement : Statement} {witness : List FieldElement}
    (created : new sha256 circuit statement witness = .ok prover) : prover = ⟨circuit, statement, witness⟩ := by
  obtain ⟨_, _, created⟩ := Outcome.bind_ok_iff.mp created
  obtain ⟨_, _, created⟩ := Outcome.bind_ok_iff.mp created
  exact (Outcome.ok.inj created).symm

theorem newBackend_eq (honest : prover.interactive.Honest sha256) :
    MpcithProver.newBackend sha256 prover.circuit prover.statement.toMpcith prover.witness = .ok prover.interactive := by
  have validated : prover.statement.toMpcith.validate sha256 prover.circuit = .ok () :=
    Mpcith.Statement.validate_ok_iff.mpr honest.validated
  have counted : prover.witness.length = prover.circuit.numSecretInputs := honest.witnessCount
  simp only [MpcithProver.newBackend, validated, Outcome.ok_bind, Outcome.reject_of_not (not_not.mpr counted)]
  rfl

/-- What a prover returns is the conversion of an interactive proof. -/
theorem prove_ok_iff (created : MpcithProver.newBackend sha256 prover.circuit prover.statement.toMpcith prover.witness =
    .ok prover.interactive) :
    prover.prove sha256 backend repetitionCount rng = .ok (proof, next) ↔
      repetitionCount ≠ 0 ∧ ∃ inner : MpcithProof,
        prover.interactive.proveJointFs backend repetitionCount
            (fun sessions => (deriveAll backend prover.statement (fsSessions sessions)).mapError
              fun _ => .invalidProtocolState) rng = .ok (inner, next) ∧
          proof = ⟨protocolVersion, protocolId, backend.id, prover.statement,
            inner.repetitions.map toProofRepetition⟩ := by
  simp only [prove, created, Outcome.mapError_ok, Outcome.ok_bind, Outcome.bind_ok_iff,
    Outcome.reject_ok_iff, Outcome.mapError_ok_iff, exists_const, Prod.exists, Outcome.ok.injEq, Prod.mk.injEq]
  refine and_congr_right fun _ => ?_
  constructor
  · rintro ⟨inner, _, proved, rfl, rfl⟩
    exact ⟨inner, proved, rfl⟩
  · rintro ⟨inner, proved, rfl⟩
    exact ⟨inner, next, proved, rfl, rfl⟩

/-- A returned proof has a randomness for each opened view. -/
theorem prove_aligned (proved : prover.prove sha256 backend repetitionCount rng = .ok (proof, next)) :
    ∀ repetition ∈ proof.repetitions, repetition.openedViews.length = repetition.openingRandomness.length := by
  obtain ⟨_, _, proved⟩ := Outcome.bind_ok_iff.mp proved
  obtain ⟨_, _, proved⟩ := Outcome.bind_ok_iff.mp proved
  obtain ⟨_, _, proved⟩ := Outcome.bind_ok_iff.mp proved
  cases proved
  intro repetition inside
  obtain ⟨original, _, rfl⟩ := List.mem_map.mp inside
  simp [toProofRepetition]

/-- Numbered repetitions convert to the sessions they were challenged in. -/
theorem sessions_eq {repetitions : List Repetition} {count : ℕ}
    (ids : repetitions.map Repetition.id = (List.range count).map .ofIndex) {converted : NonInteractiveProof}
    (same : converted.repetitions = repetitions.map toProofRepetition) :
    converted.sessions = fsSessions (repetitions.map fun repetition => (repetition.id, repetition.commitments)) := by
  have size : repetitions.length = count := by simpa using congrArg List.length ids
  refine List.ext_getElem (by simp [NonInteractiveProof.sessions, fsSessions, same]) fun index below bound => ?_
  have inside : index < repetitions.length := by simpa [fsSessions] using bound
  have numbered := congrArg (·[index]?) ids
  simp only [List.getElem?_map, List.getElem?_eq_getElem inside, Option.map_some,
    List.getElem?_range (size ▸ inside), Option.some.injEq] at numbered
  simp [NonInteractiveProof.sessions, fsSessions, same, numbered, toProofRepetition]

/-- An honest prover's proof passes every check of the verifier. -/
theorem prove_verified (honest : prover.interactive.Honest sha256)
    (proved : prover.prove sha256 backend repetitionCount rng = .ok (proof, next)) :
    Verified sha256 backend prover.circuit prover.statement proof ∧
      proof.repetitions.length = repetitionCount.toNat := by
  obtain ⟨-, inner, joint, rfl⟩ := (prove_ok_iff (newBackend_eq honest)).mp proved
  obtain ⟨derived, ids, -⟩ := MpcithProver.proveJointFs_transcript joint
  obtain ⟨-, -, accepted⟩ := Mpcith.verify_valid_iff.mp (honest.proveJointFs_valid joint)
  have size : inner.repetitions.length = repetitionCount.toNat := by simpa using congrArg List.length ids
  refine ⟨⟨rfl, rfl, rfl, honest.validated, rfl, ?_, ?_⟩, by rw [List.length_map, size]⟩
  · rw [Outcome.mapError_ok_iff, ← @sessions_eq _ _ ids ⟨protocolVersion, protocolId, backend.id,
      prover.statement, inner.repetitions.map toProofRepetition⟩ rfl] at derived
    rw [derived, List.map_map]
    rfl
  · intro index repetition found
    rw [List.getElem?_map, Option.map_eq_some_iff] at found
    obtain ⟨original, here, rfl⟩ := found
    obtain ⟨id, verified⟩ := accepted index original here
    have valid := honest.validated
    obtain ⟨views, randomness, globals, value, held⟩ :=
      (verifyRepetition_true_iff valid.wellFormed valid.publicInputs valid.expectedOutputs).mp verified
    rw [toInnerRepetition_toProofRepetition id]
    · exact verified
    · rw [held.openedViews, List.map_map]
      refine (List.map_congr_left fun p listed => ?_).trans (List.map_id _)
      exact held.party p (PartyId.mem_others_iff.mp listed)

/-- An honest prover with encodable views returns a proof of any positive length. -/
theorem exists_prove (honest : prover.interactive.Honest sha256)
    (sizes : ∀ p, commitmentSize prover.circuit p < 2 ^ 32) (positive : repetitionCount ≠ 0) :
    ∃ proof next, prover.prove sha256 (sha256Backend sha256) repetitionCount rng = .ok (proof, next) := by
  have some : 0 < repetitionCount.toNat := by
    rw [Nat.pos_iff_ne_zero]
    intro zero
    exact positive (UInt32.toNat_inj.mp zero)
  have answers (sessions : List (RepetitionId × List ViewCommitment)) (count : sessions.length = repetitionCount.toNat)
      (complete : ∀ session ∈ sessions, session.2.length = 3) :
      ∃ challenges, ((deriveAll (sha256Backend sha256) prover.statement (fsSessions sessions)).mapError
        fun _ => MpcithError.invalidProtocolState) = .ok challenges ∧ challenges.length = sessions.length := by
    have admitted : Admitted (fsSessions sessions) := by
      refine ⟨fun none => ?_, fun session inside => ?_⟩
      · rw [fsSessions, List.map_eq_nil_iff] at none
        rw [none, List.length_nil] at count
        omega
      · obtain ⟨original, listed, rfl⟩ := List.mem_map.mp inside
        exact complete original listed
    obtain ⟨challenges, derived, size⟩ := @exists_deriveAll sha256 prover.statement _ admitted
    rw [fsSessions, List.length_map] at size
    exact ⟨challenges, Outcome.mapError_ok_iff.mpr derived, size⟩
  obtain ⟨inner, next, joint⟩ := @MpcithProver.Honest.exists_proveJointFs _ rng sha256 (sha256Backend sha256)
    repetitionCount honest sizes positive _ answers
  exact ⟨_, next, (prove_ok_iff (newBackend_eq honest)).mpr ⟨positive, inner, joint, rfl⟩⟩

/-- The product of two and three plus one is seven. -/
def productStatement : Statement where
  circuitId := MpcithProver.productStatement.circuitId
  publicInputs := MpcithProver.productStatement.publicInputs
  expectedOutputs := MpcithProver.productStatement.expectedOutputs

end Prover

end PaymentAuth.Proof
