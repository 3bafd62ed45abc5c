import PaymentAuth.Proof.Prover

/-! Verification of proofs whose opened views are too long to be framed. -/

namespace PaymentAuth.Mpcith

open Library

section Views

variable {backend : CryptoBackend} {statement : Statement} {circuit : Circuit FieldElement} {repetition : Repetition}
  {views : PartyId → PartyView} {randomness : Bytes}

theorem verifyCommitment_eq (commitment : ViewCommitment) (view : PartyView) :
    verifyCommitment backend commitment view randomness =
      (commitView backend view randomness >>= fun digest => .ok (decide (digest = commitment))) := by
  unfold verifyCommitment commitView
  rw [bind_assoc]

private theorem checkOpening_aborts {view : PartyView} (numbered : view.repetitionId = repetition.id)
    (commitments : repetition.commitments.length = partyCount) (size : randomness.length = randomnessLen)
    (long : 2 ^ 32 ≤ (commitmentMessage view).length) :
    checkOpening backend repetition ⟨view, randomness⟩ = .aborted := by
  have bound : view.partyId.val < repetition.commitments.length := by
    rw [commitments]
    exact view.partyId.isLt
  rw [checkOpening, Outcome.reject_of_not (not_not.mpr numbered), Outcome.ok_bind,
    List.getElem?_eq_getElem bound, Outcome.expect_some, Outcome.ok_bind, verifyCommitment_eq, commitView_eq _ _ size,
    if_neg (not_lt.mpr long)]
  rfl

/-- A repetition that opens views whose messages do not fit their length prefix
aborts the verifier. -/
theorem verifyRepetition_aborts (commitments : repetition.commitments.length = partyCount)
    (opened : repetition.openedViews =
      (PartyId.others repetition.challenge.hiddenParty).map fun p => ⟨views p, randomness⟩)
    (party : ∀ p, (views p).partyId = p) (numbered : ∀ p, (views p).repetitionId = repetition.id)
    (size : randomness.length = randomnessLen) (long : ∀ p, 2 ^ 32 ≤ (commitmentMessage (views p)).length) :
    verifyRepetition backend statement repetition circuit = .aborted := by
  have parties : repetition.openedViews.map (fun opened => opened.view.partyId) =
      PartyId.others repetition.challenge.hiddenParty := by
    rw [opened, List.map_map]
    exact (List.map_congr_left fun p _ => party p).trans (List.map_id _)
  have checked : forM repetition.openedViews (checkOpening backend repetition) = .aborted := by
    rw [opened]
    match repetition.challenge.hiddenParty with
    | 0 | 1 | 2 =>
      rw [PartyId.others, List.map_cons, List.forM_cons, checkOpening_aborts (numbered _) commitments size (long _)]
      rfl
  rw [verifyRepetition, PartyId.new_get, Outcome.ok_bind, Outcome.reject_of_not (not_not.mpr commitments),
    Outcome.ok_bind, Outcome.reject_of_not (not_not.mpr parties), Outcome.ok_bind, checked]
  rfl

/-- A view of input shares alone. -/
def sharesView (width : ℕ) (id : RepetitionId) (party : PartyId) : PartyView :=
  ⟨id, party, List.replicate width 0, [], [], []⟩

theorem sharesView_message_length (width : ℕ) (id : RepetitionId) (party : PartyId) :
    (commitmentMessage (sharesView width id party)).length = 60 + 32 * width := by
  rw [commitmentMessage_length]
  simp [sharesView]

/-- The framing of the message adds 39 bytes to the encoded view. -/
theorem commitmentMessage_length_eq (view : PartyView) :
    (commitmentMessage view).length = 39 + (encodeView view).length := by
  have domain : viewCommitmentDomain.length = 35 := by decide
  rw [commitmentMessage, List.length_append, lengthPrefixed_length, domain]

end Views

end PaymentAuth.Mpcith

namespace PaymentAuth.Proof

open Library Mpcith

/-- One repetition that hides a party and opens views of input shares alone. -/
def sharesRepetition (width : ℕ) (challenge : Challenge) : ProofRepetition where
  commitments := List.replicate 3 zeroDigest
  challenge := challenge
  openedViews := (PartyId.others challenge.hiddenParty).map (sharesView width (.ofIndex 0))
  openingRandomness := (PartyId.others challenge.hiddenParty).map fun _ => List.replicate randomnessLen 0
  hiddenBroadcasts := []
  hiddenOutputShares := []

/-- The decoder accepts such a repetition while the encoded views fit their length fields. -/
theorem sharesRepetition_encodable {width : ℕ} (small : width < 2 ^ 27) (challenge : Challenge) :
    (sharesRepetition width challenge).Encodable := by
  have two (party : PartyId) : (PartyId.others party).length = 2 := by
    match party with
    | 0 | 1 | 2 => rfl
  constructor
  · exact List.length_replicate
  · exact Nat.two_pow_pos 32
  · exact Nat.two_pow_pos 32
  · rw [sharesRepetition, List.length_map, two]
  · rw [sharesRepetition, List.length_map, two]
  · intro opening listed
    rw [sharesRepetition, List.zip_map', List.mem_map] at listed
    obtain ⟨party, _, rfl⟩ := listed
    have length := sharesView_message_length width (.ofIndex 0) party
    rw [commitmentMessage_length_eq] at length
    constructor
    · constructor
      · rw [sharesView, List.length_replicate]
        omega
      · exact Nat.two_pow_pos 32
      · exact List.forall_mem_nil _
      · exact Nat.two_pow_pos 32
      · exact Nat.two_pow_pos 32
    · dsimp only
      omega
    · exact List.length_replicate

private theorem inner_aborts {backend : CryptoBackend} {circuit : Circuit FieldElement} {statement : Mpcith.Statement}
    {width : ℕ} (wide : 2 ^ 27 ≤ width + 1) (challenge : Challenge) :
    verifyRepetition backend statement (toInnerRepetition (sharesRepetition width challenge) 0) circuit = .aborted := by
  refine @verifyRepetition_aborts backend statement circuit _ (sharesView width (.ofIndex 0))
    (List.replicate randomnessLen 0) ?_ ?_ (fun _ => rfl) (fun _ => rfl) List.length_replicate ?_
  · exact List.length_replicate
  · simp only [toInnerRepetition, sharesRepetition, List.zip_map', List.map_map]
    rfl
  · intro party
    rw [sharesView_message_length]
    omega

/-- Every validated statement has a proof that aborts the verifier, although the decoder
accepts it and its encoded views are shorter than `2 ^ 32` bytes. -/
theorem exists_aborting {sha256 : Bytes → Digest} {circuit : Circuit FieldElement} {statement : Statement}
    (validated : statement.toMpcith.Validated sha256 circuit) :
    ∃ proof : NonInteractiveProof, proof.statement = statement ∧ proof.Encodable ∧
      verify sha256 (sha256Backend sha256) circuit statement proof = .aborted := by
  have admitted : Admitted [⟨.ofIndex 0, List.replicate 3 zeroDigest⟩] := ⟨by simp, by simp⟩
  obtain ⟨challenges, derived, count⟩ := @exists_deriveAll sha256 statement _ admitted
  obtain ⟨challenge, rfl⟩ := List.length_eq_one_iff.mp count
  obtain ⟨width, wide⟩ : ∃ width : ℕ, 2 ^ 27 = width + 1 := ⟨_, rfl⟩
  refine ⟨⟨protocolVersion, protocolId, (sha256Backend sha256).id, statement, [sharesRepetition width challenge]⟩,
    rfl, ?_, ?_⟩
  · have bounds := Circuit.computeId_ok_bounds validated.circuitId
    refine ⟨rfl, rfl, List.mem_cons_self, ⟨?_, validated.expectedOutputs.trans_lt bounds.2⟩,
      (by decide : 1 ≤ maxProofRepetitions), ?_⟩
    · have leaves : circuit.numPublicInputs ≤ circuit.nodes.length :=
        validated.wellFormed.publicInputs ▸ List.countP_le_length
      exact (validated.publicInputs.trans_le leaves).trans_lt bounds.1
    · intro repetition listed
      rw [List.mem_singleton.mp listed]
      exact sharesRepetition_encodable (by omega) challenge
  have checked : statement.validate sha256 circuit = .ok () := Statement.validate_ok_iff.mpr validated
  have checked' : statement.toMpcith.validate sha256 circuit = .ok () := Mpcith.Statement.validate_ok_iff.mpr validated
  have aborts : Mpcith.verify sha256 (sha256Backend sha256) statement.toMpcith
      ⟨[toInnerRepetition (sharesRepetition width challenge) 0]⟩ circuit = .aborted := by
    rw [Mpcith.verify, checked', Outcome.ok_bind, Outcome.reject_of_not (by simp), Outcome.ok_bind]
    simp only [List.zipIdx_singleton, List.allM]
    rw [Outcome.reject_of_not (by simp [toInnerRepetition]), Outcome.ok_bind, inner_aborts wide.le]
    rfl
  have same : (⟨protocolVersion, protocolId, (sha256Backend sha256).id, statement, [sharesRepetition width challenge]⟩ :
      NonInteractiveProof).inner = ⟨[toInnerRepetition (sharesRepetition width challenge) 0]⟩ := rfl
  have session : (⟨protocolVersion, protocolId, (sha256Backend sha256).id, statement,
      [sharesRepetition width challenge]⟩ : NonInteractiveProof).sessions =
      [⟨.ofIndex 0, List.replicate 3 zeroDigest⟩] := rfl
  have challenged (check : ProofRepetition × Challenge → Outcome ProofError PUnit)
      (passed : check (sharesRepetition width challenge, challenge) = .ok ⟨⟩) :
      forM ([sharesRepetition width challenge].zip [challenge]) check = .ok ⟨⟩ :=
    Outcome.forM_ok_iff.mpr (List.forall_mem_singleton.mpr passed)
  rw [verify, Outcome.reject_of_not (by simp), Outcome.ok_bind, Outcome.reject_of_not (by simp), Outcome.ok_bind,
    Outcome.reject_of_not (by simp), Outcome.ok_bind, checked, Outcome.ok_bind, Outcome.reject_of_not (by simp),
    Outcome.ok_bind, session, derived, Outcome.ok_bind,
    challenged _ (Outcome.reject_of_not (not_not_intro rfl) _), Outcome.ok_bind, same, aborts]
  rfl

end PaymentAuth.Proof
