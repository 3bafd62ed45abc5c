import PaymentAuth.Mpcith.Uniqueness
import PaymentAuth.Proof.Verifier

namespace PaymentAuth.Proof

open Library Mpcith

/-- The views and randomness a proof opens. -/
def NonInteractiveProof.openings (proof : NonInteractiveProof) : List (PartyView × Bytes) :=
  proof.repetitions.flatMap fun repetition => repetition.openedViews.zip repetition.openingRandomness

def NonInteractiveProof.commitments (proof : NonInteractiveProof) : List (List ViewCommitment) :=
  proof.repetitions.map ProofRepetition.commitments

theorem toInnerRepetition_openings (repetition : ProofRepetition) (index : ℕ) :
    (toInnerRepetition repetition index).openings = repetition.openedViews.zip repetition.openingRandomness := by
  rw [Repetition.openings, toInnerRepetition, List.map_map]
  exact List.map_id _

theorem NonInteractiveProof.mem_openings {proof : NonInteractiveProof} {index : ℕ} {repetition : ProofRepetition}
    (found : proof.repetitions[index]? = some repetition) {opening : PartyView × Bytes}
    (member : opening ∈ (toInnerRepetition repetition index).openings) : opening ∈ proof.openings := by
  rw [toInnerRepetition_openings] at member
  exact List.mem_flatMap.mpr ⟨repetition, List.mem_of_getElem? found, member⟩

/-- Repetitions in the decoder's shape are determined by their inner forms. -/
theorem toInnerRepetition_injective {repetition repetition' : ProofRepetition} {index : ℕ}
    (encodable : repetition.Encodable) (encodable' : repetition'.Encodable)
    (same : toInnerRepetition repetition index = toInnerRepetition repetition' index) : repetition = repetition' := by
  have openings : repetition.openedViews.zip repetition.openingRandomness =
      repetition'.openedViews.zip repetition'.openingRandomness := by
    rw [← toInnerRepetition_openings repetition index, same, toInnerRepetition_openings]
  have size : repetition.openedViews.length = repetition.openingRandomness.length := by
    rw [encodable.openedViews, encodable.openingRandomness]
  have size' : repetition'.openedViews.length = repetition'.openingRandomness.length := by
    rw [encodable'.openedViews, encodable'.openingRandomness]
  have views := congrArg (List.map Prod.fst) openings
  have randomness := congrArg (List.map Prod.snd) openings
  rw [List.map_fst_zip size.le, List.map_fst_zip size'.le] at views
  rw [List.map_snd_zip size.ge, List.map_snd_zip size'.ge] at randomness
  simp only [toInnerRepetition, Repetition.mk.injEq] at same
  cases repetition
  cases repetition'
  simp only [ProofRepetition.mk.injEq]
  exact ⟨same.2.1, same.2.2.1, views, randomness, same.2.2.2.2.2, same.2.2.2.2.1⟩

namespace Verified

variable {sha256 : Bytes → Digest} {backend : CryptoBackend} {circuit : Circuit FieldElement} {statement : Statement}
  {proof proof' : NonInteractiveProof}

/-- Verified proofs over the same commitments carry the same challenges. -/
theorem challenges_unique (verified : Verified sha256 backend circuit statement proof)
    (verified' : Verified sha256 backend circuit statement proof') (commitments : proof.commitments = proof'.commitments) :
    proof.repetitions.map ProofRepetition.challenge = proof'.repetitions.map ProofRepetition.challenge := by
  have numbered (other : NonInteractiveProof) : other.sessions =
      other.commitments.zipIdx.map fun (committed, index) => ⟨.ofIndex index, committed⟩ := by
    simp only [NonInteractiveProof.sessions, NonInteractiveProof.commitments, List.zipIdx_map, List.map_map]
    rfl
  have drawn := verified.challenges
  rw [numbered, commitments, ← numbered, verified'.challenges] at drawn
  exact (Outcome.ok.inj drawn).symm

/-- Verified repetitions at one position of two proofs over the same commitments are equal. -/
theorem repetition_unique (verified : Verified sha256 backend circuit statement proof)
    (verified' : Verified sha256 backend circuit statement proof')
    (commitments : proof.commitments = proof'.commitments) (encodable : proof.Encodable) (encodable' : proof'.Encodable)
    (free : CollisionFree backend (proof.openings ++ proof'.openings)) {index : ℕ}
    {repetition repetition' : ProofRepetition} (found : proof.repetitions[index]? = some repetition)
    (found' : proof'.repetitions[index]? = some repetition') : repetition = repetition' := by
  have committed : repetition.commitments = repetition'.commitments := by
    have here := congrArg (·[index]?) commitments
    simpa [NonInteractiveProof.commitments, found, found'] using here
  have challenged : repetition.challenge = repetition'.challenge := by
    have here := congrArg (·[index]?) (verified.challenges_unique verified' commitments)
    simpa [found, found'] using here
  have valid := verified.validated
  obtain ⟨views, randomness, globals, value, accepted⟩ :=
    (verifyRepetition_true_iff valid.wellFormed valid.publicInputs valid.expectedOutputs).mp
      (verified.accepted index repetition found)
  obtain ⟨views', randomness', globals', value', accepted'⟩ :=
    (verifyRepetition_true_iff valid.wellFormed valid.publicInputs valid.expectedOutputs).mp
      (verified'.accepted index repetition' found')
  have within : CollisionFree backend
      ((toInnerRepetition repetition index).openings ++ (toInnerRepetition repetition' index).openings) := by
    refine free.mono fun opening member => ?_
    rcases List.mem_append.mp member with first | second
    · exact List.mem_append_left _ (NonInteractiveProof.mem_openings found first)
    · exact List.mem_append_right _ (NonInteractiveProof.mem_openings found' second)
  exact toInnerRepetition_injective (encodable.each _ (List.mem_of_getElem? found))
    (encodable'.each _ (List.mem_of_getElem? found'))
    (accepted.unique accepted' valid.wellFormed rfl committed challenged within)

/-- A verified proof is the only one over its commitments. -/
theorem unique (verified : Verified sha256 backend circuit statement proof)
    (verified' : Verified sha256 backend circuit statement proof')
    (commitments : proof.commitments = proof'.commitments) (encodable : proof.Encodable) (encodable' : proof'.Encodable)
    (free : CollisionFree backend (proof.openings ++ proof'.openings)) : proof = proof' := by
  have size : proof.repetitions.length = proof'.repetitions.length := by
    have sizes := congrArg List.length commitments
    rwa [NonInteractiveProof.commitments, NonInteractiveProof.commitments, List.length_map, List.length_map] at sizes
  have repetitions : proof.repetitions = proof'.repetitions := by
    refine List.ext_getElem size fun index bound bound' => ?_
    exact verified.repetition_unique verified' commitments encodable encodable' free
      (List.getElem?_eq_getElem bound) (List.getElem?_eq_getElem bound')
  have version := verified.version.trans verified'.version.symm
  have protocol := verified.protocolId.trans verified'.protocolId.symm
  have backendId := verified.backendId.trans verified'.backendId.symm
  have sameStatement := verified.sameStatement.trans verified'.sameStatement.symm
  cases proof
  cases proof'
  simp only [NonInteractiveProof.mk.injEq]
  exact ⟨version, protocol, backendId, sameStatement, repetitions⟩

end Verified

/-- Accepted byte strings with the same commitments are identical. -/
theorem deserializeProof_nonmalleable {sha256 : Bytes → Digest} {backend : CryptoBackend}
    {circuit : Circuit FieldElement} {statement : Statement} {bytes bytes' : Bytes} {proof proof' : NonInteractiveProof}
    (decoded : deserializeProof bytes = .ok proof) (decoded' : deserializeProof bytes' = .ok proof')
    (accepted : verify sha256 backend circuit statement proof = .ok .valid)
    (accepted' : verify sha256 backend circuit statement proof' = .ok .valid)
    (commitments : proof.repetitions.map ProofRepetition.commitments =
      proof'.repetitions.map ProofRepetition.commitments)
    (free : CollisionFree backend (proof.openings ++ proof'.openings)) : bytes = bytes' := by
  obtain ⟨encodable, rfl⟩ := deserializeProof_ok_iff.mp decoded
  obtain ⟨encodable', rfl⟩ := deserializeProof_ok_iff.mp decoded'
  have same := (verify_valid_iff.mp accepted).unique (verify_valid_iff.mp accepted') commitments encodable encodable' free
  rw [same]

/-- One secret input, which is the output. -/
def secretCircuit : Circuit FieldElement where
  nodes := [.secretInput]
  numSecretInputs := 1
  numPublicInputs := 0
  outputs := [⟨0⟩]

def secretStatement : Statement where
  circuitId := sha256HashDomain PaymentAuth.sha256 circuitIdDomain secretCircuit.encode
  publicInputs := []
  expectedOutputs := [((6 : ℕ) : FieldElement)]

/-- The view of a party that holds one more than its number of the secret six. -/
def shareView (p : PartyId) : PartyView := ⟨⟨0⟩, p, [p.val + 1], [], [], []⟩

def shareCommitment (p : PartyId) : Digest :=
  PaymentAuth.sha256 (lengthPrefixed zeroDigest.bytes ++ lengthPrefixed (commitmentMessage (shareView p)))

def shareProof : NonInteractiveProof where
  version := 2
  protocolId := 1
  backendId := (sha256Backend PaymentAuth.sha256).id
  statement := secretStatement
  repetitions := [{
    commitments := [shareCommitment 0, shareCommitment 1, shareCommitment 2]
    challenge := ⟨1⟩
    openedViews := [shareView 0, shareView 2]
    openingRandomness := [zeroDigest.bytes, zeroDigest.bytes]
    hiddenBroadcasts := []
    hiddenOutputShares := [((2 : ℕ) : FieldElement)] }]

theorem commitView_shareView (p : PartyId) :
    commitView (sha256Backend PaymentAuth.sha256) (shareView p) zeroDigest.bytes = .ok (shareCommitment p) := by
  have sizes : (commitmentMessage (shareView p)).length = 92 := by
    simp [commitmentMessage, encodeView, RepetitionId.encode, shareView]
    rfl
  have framed : (sha256Backend PaymentAuth.sha256).commit (commitmentMessage (shareView p)) zeroDigest.bytes =
      (.ok (shareCommitment p) : Outcome MpcithError Digest) :=
    CryptoBackend.commit_ok_iff.mpr ⟨by decide, by rw [sizes]; decide, rfl⟩
  exact framed

theorem shareProof_encodable : shareProof.Encodable where
  version := rfl
  protocolId := rfl
  backendId := by decide
  statement := ⟨by decide, by decide⟩
  repetitions := by decide
  each := by
    intro repetition member
    obtain rfl := List.mem_singleton.mp member
    refine ⟨rfl, by decide, by decide, rfl, rfl, ?_⟩
    intro opening paired
    have opens : ∃ p, opening = (shareView p, zeroDigest.bytes) := by
      simp only [List.zip_cons_cons, List.zip_nil_left, List.mem_cons, List.not_mem_nil, or_false] at paired
      rcases paired with rfl | rfl
      exacts [⟨0, rfl⟩, ⟨2, rfl⟩]
    obtain ⟨p, rfl⟩ := opens
    have encodable : (shareView p).Encodable := by
      constructor <;> simp [shareView]
    refine ⟨encodable, ?_, rfl⟩
    simp [encodeView, RepetitionId.encode, shareView]

theorem shareProof_collisionFree :
    CollisionFree (sha256Backend PaymentAuth.sha256) (shareProof.openings ++ shareProof.openings) := by
  have different : shareCommitment 0 ≠ shareCommitment 2 := by decide +kernel
  have opens : ∀ opening ∈ shareProof.openings ++ shareProof.openings,
      opening = (shareView 0, zeroDigest.bytes) ∨ opening = (shareView 2, zeroDigest.bytes) := by
    intro opening member
    rw [List.mem_append, or_self] at member
    simpa [shareProof, NonInteractiveProof.openings] using member
  intro opening member other member' commitment first second
  rcases opens opening member with rfl | rfl <;> rcases opens other member' with rfl | rfl
  · rfl
  · rw [commitView_shareView] at first second
    exact absurd ((Outcome.ok.inj first).trans (Outcome.ok.inj second).symm) different
  · rw [commitView_shareView] at first second
    exact absurd ((Outcome.ok.inj second).trans (Outcome.ok.inj first).symm) different
  · rfl

theorem shareProof_valid :
    verify PaymentAuth.sha256 (sha256Backend PaymentAuth.sha256) secretCircuit secretStatement shareProof =
      .ok .valid := by
  decide +kernel

theorem deserializeProof_nonmalleable_share : serializeProof shareProof = serializeProof shareProof :=
  deserializeProof_nonmalleable (deserializeProof_ok_iff.mpr ⟨shareProof_encodable, rfl⟩)
    (deserializeProof_ok_iff.mpr ⟨shareProof_encodable, rfl⟩) shareProof_valid shareProof_valid rfl
    shareProof_collisionFree

end PaymentAuth.Proof
