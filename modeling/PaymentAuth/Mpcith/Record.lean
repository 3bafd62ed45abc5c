import PaymentAuth.Mpcith.PublicOutputs
import PaymentAuth.Mpcith.Uniqueness
import PaymentAuth.Mpcith.Verdict

/-! The public record of a proof, and what it keeps of a proof that verifies. -/

namespace PaymentAuth.Mpcith

open Library

/-- Public record of one repetition. -/
structure RepetitionTranscript where
  repetitionId : RepetitionId
  commitments : List ViewCommitment
  challenge : Challenge
  openedParties : UInt8 × UInt8
  openedViews : List PartyView
  hiddenOutputShares : List FieldElement
  hiddenBroadcasts : List FieldElement
deriving DecidableEq

/-- Complete deterministic transcript of a proof. -/
structure MpcithTranscript where
  repetitions : List RepetitionTranscript
deriving DecidableEq

/-- Records a repetition without the randomness of its commitments. -/
def RepetitionTranscript.ofRepetition (repetition : Repetition) : RepetitionTranscript :=
  let opened := repetition.openedViews.insertionSort fun left right => left.view.partyId ≤ right.view.partyId
  let openedParty (position : ℕ) : UInt8 := opened[position]?.elim 0 fun item => PartyId.get item.view.partyId
  { repetitionId := repetition.id
    commitments := repetition.commitments
    challenge := repetition.challenge
    openedParties := (openedParty 0, openedParty 1)
    openedViews := opened.map OpenedView.view
    hiddenOutputShares := repetition.hiddenOutputShares
    hiddenBroadcasts := repetition.hiddenBroadcasts }

namespace MpcithTranscript

/-- Builds a transcript from a proof. -/
def fromProof (proof : MpcithProof) : MpcithTranscript :=
  ⟨proof.repetitions.map RepetitionTranscript.ofRepetition⟩

/-- Checks that the repetitions are numbered in order. -/
def isOrdered (transcript : MpcithTranscript) : Bool :=
  transcript.repetitions.zipIdx.all fun (record, index) => record.repetitionId.get == UInt32.ofNat index

end MpcithTranscript

/-- The openings of all repetitions. -/
def MpcithProof.openings (proof : MpcithProof) : List (PartyView × Bytes) :=
  proof.repetitions.flatMap Repetition.openings

/-- The commitments of every repetition with the challenge to them. -/
def MpcithProof.challenged (proof : MpcithProof) : List (List ViewCommitment × Challenge) :=
  proof.repetitions.map fun repetition => (repetition.commitments, repetition.challenge)

section Judged

variable {backend : CryptoBackend} {statement : Statement} {circuit : Circuit FieldElement} {repetition : Repetition}

/-- The record of a judged repetition keeps its views, of the parties that are not hidden. -/
theorem RepetitionTranscript.ofRepetition_judged {verdict : Bool}
    (judged : verifyRepetition backend statement repetition circuit = .ok verdict) :
    (ofRepetition repetition).openedViews = repetition.openedViews.map OpenedView.view ∧
      [(ofRepetition repetition).openedParties.1, (ofRepetition repetition).openedParties.2] =
        (PartyId.others repetition.challenge.hiddenParty).map PartyId.get := by
  have ids := openedParties_of_verifyRepetition judged
  have ordered := PartyId.others_sorted repetition.challenge.hiddenParty
  rw [← ids, List.pairwise_map] at ordered
  have same : (repetition.openedViews.insertionSort fun left right => left.view.partyId ≤ right.view.partyId) =
      repetition.openedViews := List.Pairwise.insertionSort_eq ordered
  have two : repetition.openedViews.length = 2 := by
    rw [← PartyId.others_length repetition.challenge.hiddenParty, ← ids, List.length_map]
  obtain ⟨first, second, pair⟩ := List.length_eq_two.mp two
  rw [ofRepetition, same]
  refine ⟨rfl, ?_⟩
  rw [← ids, pair]
  rfl

end Judged

section Accepted

variable {sha256 : Bytes → Digest} {backend : CryptoBackend} {statement : Statement} {circuit : Circuit FieldElement}
  {proof proof' : MpcithProof}

theorem isOrdered_of_valid (accepted : verify sha256 backend statement proof circuit = .ok .valid) :
    (MpcithTranscript.fromProof proof).isOrdered = true := by
  obtain ⟨-, -, each⟩ := verify_valid_iff.mp accepted
  rw [MpcithTranscript.isOrdered, MpcithTranscript.fromProof, List.all_eq_true]
  rintro ⟨record, index⟩ listed
  have found := List.mk_mem_zipIdx_iff_getElem?.mp listed
  rw [List.getElem?_map, Option.map_eq_some_iff] at found
  obtain ⟨repetition, here, rfl⟩ := found
  have numbered := (each index repetition here).1
  simp [RepetitionTranscript.ofRepetition, numbered, RepetitionId.ofIndex]

/-- The commitments and the challenges leave one proof that is valid. -/
theorem proof_unique (accepted : verify sha256 backend statement proof circuit = .ok .valid)
    (accepted' : verify sha256 backend statement proof' circuit = .ok .valid)
    (challenged : proof.challenged = proof'.challenged)
    (free : CollisionFree backend (proof.openings ++ proof'.openings)) : proof = proof' := by
  obtain ⟨validated, -, each⟩ := verify_valid_iff.mp accepted
  obtain ⟨-, -, each'⟩ := verify_valid_iff.mp accepted'
  have size : proof.repetitions.length = proof'.repetitions.length := by
    simpa [MpcithProof.challenged] using congrArg List.length challenged
  have repetitions : proof.repetitions = proof'.repetitions := by
    refine List.ext_getElem size fun index bound bound' => ?_
    obtain ⟨id, verified⟩ := each index _ (List.getElem?_eq_getElem bound)
    obtain ⟨id', verified'⟩ := each' index _ (List.getElem?_eq_getElem bound')
    have here := congrArg (·[index]?) challenged
    simp only [MpcithProof.challenged, List.getElem?_map, List.getElem?_eq_getElem bound,
      List.getElem?_eq_getElem bound', Option.map_some, Option.some.injEq, Prod.mk.injEq] at here
    obtain ⟨views, randomness, globals, value, held⟩ :=
      (verifyRepetition_true_iff validated.wellFormed validated.publicInputs validated.expectedOutputs).mp verified
    obtain ⟨views', randomness', globals', value', held'⟩ :=
      (verifyRepetition_true_iff validated.wellFormed validated.publicInputs validated.expectedOutputs).mp verified'
    refine held.unique held' validated.wellFormed (id.trans id'.symm) here.1 here.2 (free.mono fun opening member => ?_)
    rcases List.mem_append.mp member with left | right
    · exact List.mem_append_left _ (List.mem_flatMap.mpr ⟨_, List.getElem_mem bound, left⟩)
    · exact List.mem_append_right _ (List.mem_flatMap.mpr ⟨_, List.getElem_mem bound', right⟩)
  exact congrArg MpcithProof.mk repetitions

/-- The transcript of a valid proof is ordered and shows the views of the parties that are not
hidden, in their order. It drops the randomness of the commitments and still determines the
proof, as the commitments with their challenges do, unless a commitment is opened in two ways. -/
theorem fromProof_determines (accepted : verify sha256 backend statement proof circuit = .ok .valid)
    (accepted' : verify sha256 backend statement proof' circuit = .ok .valid)
    (free : CollisionFree backend (proof.openings ++ proof'.openings)) :
    (MpcithTranscript.fromProof proof).isOrdered = true ∧
      List.Forall₂ (fun repetition record =>
          record.openedViews = repetition.openedViews.map OpenedView.view ∧
            [record.openedParties.1, record.openedParties.2] =
              (PartyId.others repetition.challenge.hiddenParty).map PartyId.get)
        proof.repetitions (MpcithTranscript.fromProof proof).repetitions ∧
      (MpcithTranscript.fromProof proof = MpcithTranscript.fromProof proof' ↔ proof = proof') ∧
      (proof.challenged = proof'.challenged ↔ proof = proof') := by
  have unique (challenged : proof.challenged = proof'.challenged) : proof = proof' :=
    proof_unique accepted accepted' challenged free
  refine ⟨isOrdered_of_valid accepted, ?_, ⟨?_, congrArg _⟩, ⟨unique, congrArg _⟩⟩
  · obtain ⟨-, -, each⟩ := verify_valid_iff.mp accepted
    refine List.forall₂_map_right_iff.mpr (List.forall₂_same.mpr fun repetition listed => ?_)
    obtain ⟨index, found⟩ := List.mem_iff_getElem?.mp listed
    exact RepetitionTranscript.ofRepetition_judged (each index repetition found).2
  · intro same
    apply unique
    have kept (other : MpcithProof) : other.challenged =
        (MpcithTranscript.fromProof other).repetitions.map fun record => (record.commitments, record.challenge) := by
      rw [MpcithProof.challenged, MpcithTranscript.fromProof, List.map_map]
      rfl
    rw [kept, same, ← kept]

/-- The constant five proved to be six with one party hidden. -/
def constantProof (hidden : PartyId) : MpcithProof :=
  forgedProof (sha256Backend PaymentAuth.sha256) constantStatement constantCircuit hidden

/-- Two proofs that hide different parties have different transcripts, both in order. -/
theorem fromProof_determines_constant :
    (MpcithTranscript.fromProof (constantProof 0)).isOrdered = true ∧
      MpcithTranscript.fromProof (constantProof 0) ≠ MpcithTranscript.fromProof (constantProof 1) := by
  have checked : constantCircuit.validate = .ok () := by decide +kernel
  have validated : constantStatement.Validated PaymentAuth.sha256 constantCircuit :=
    ⟨Circuit.validate_ok_iff.mp checked, rfl, rfl, rfl⟩
  have sizes (hidden : PartyId) : ∀ p ≠ hidden, commitmentSize constantCircuit p < 2 ^ 32 := by
    revert hidden
    decide +kernel
  have accepted (hidden : PartyId) :=
    forgedProof_valid validated (sha256Backend PaymentAuth.sha256) (sizes hidden)
  have apart : ∀ opening ∈ (constantProof 0).openings ++ (constantProof 1).openings,
      ∀ other ∈ (constantProof 0).openings ++ (constantProof 1).openings,
        commitView (sha256Backend PaymentAuth.sha256) opening.1 opening.2 =
          commitView (sha256Backend PaymentAuth.sha256) other.1 other.2 → opening = other := by decide +kernel
  obtain ⟨ordered, -, transcripts, -⟩ := fromProof_determines (accepted 0) (accepted 1)
    fun opening member other member' commitment opens opens' =>
      apart opening member other member' (opens.trans opens'.symm)
  have different : constantProof 0 ≠ constantProof 1 := by decide +kernel
  exact ⟨ordered, fun same => different (transcripts.mp same)⟩

end Accepted

end PaymentAuth.Mpcith
