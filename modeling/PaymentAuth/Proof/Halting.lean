import PaymentAuth.Mpcith.Halting
import PaymentAuth.Proof.Oversized
import PaymentAuth.Proof.Transport

/-! The verifiers do not abort, except on counts and lengths that do not fit 32 bits. -/

namespace PaymentAuth.Proof

open Library Mpcith

section Derivation

variable {backend : CryptoBackend} {statement : Statement} {sessions : List FsSession}

private theorem deriveChallenge_ne_aborted
    (expands : ∀ domain data outLen, (backend.expand domain data outLen).length = outLen) (selector : ℕ) :
    deriveChallenge backend statement sessions selector ≠ .aborted := by
  apply Outcome.bind_ne_aborted
  · apply Outcome.bind_ne_aborted Outcome.okOr_ne_aborted
    intro selected _
    exact Outcome.ok_ne_aborted _
  intro input _
  have enough : 8 ≤ (backend.expand domainFs input 64).length := by
    rw [expands]
    decide
  dsimp only
  rw [Outcome.assert_of enough, Outcome.ok_bind]
  apply Outcome.bind_ne_aborted
  · apply Outcome.mapError_ne_aborted
    unfold PartyId.new
    split
    · exact Outcome.ok_ne_aborted _
    · exact Outcome.error_ne_aborted _
  intro hidden _
  exact Outcome.ok_ne_aborted _

theorem deriveAll_ne_aborted
    (expands : ∀ domain data outLen, (backend.expand domain data outLen).length = outLen) :
    deriveAll backend statement sessions ≠ .aborted := by
  apply Outcome.bind_ne_aborted Outcome.reject_ne_aborted
  intro _ _
  apply Outcome.mapM_ne_aborted
  intro selector _
  exact deriveChallenge_ne_aborted expands selector

end Derivation

section Verifier

variable {sha256 : Bytes → Digest} {backend : CryptoBackend} {circuit : Circuit FieldElement}

theorem Statement.validate_ne_aborted (statement : Statement) (nodes : circuit.nodes.length < 2 ^ 32)
    (outputs : circuit.outputs.length < 2 ^ 32) : statement.validate sha256 circuit ≠ .aborted := by
  apply Outcome.bind_ne_aborted (Outcome.mapError_ne_aborted circuit.validate_ne_aborted)
  intro _ _
  rw [Circuit.computeId_total sha256 nodes outputs, Outcome.ok_bind]
  apply Outcome.bind_ne_aborted Outcome.reject_ne_aborted
  intro _ _
  exact Outcome.reject_ne_aborted

/-- The verifier of a non-interactive proof returns when the interactive one does. -/
theorem verify_ne_aborted {statement : Statement} {proof : NonInteractiveProof}
    (expands : ∀ domain data outLen, (backend.expand domain data outLen).length = outLen)
    (validates : statement.validate sha256 circuit ≠ .aborted)
    (inner : Mpcith.verify sha256 backend statement.toMpcith proof.inner circuit ≠ .aborted) :
    verify sha256 backend circuit statement proof ≠ .aborted := by
  apply Outcome.bind_ne_aborted Outcome.reject_ne_aborted
  intro _ _
  apply Outcome.bind_ne_aborted Outcome.reject_ne_aborted
  intro _ _
  apply Outcome.bind_ne_aborted Outcome.reject_ne_aborted
  intro _ _
  apply Outcome.bind_ne_aborted validates
  intro _ _
  apply Outcome.bind_ne_aborted Outcome.reject_ne_aborted
  intro _ _
  apply Outcome.bind_ne_aborted (deriveAll_ne_aborted expands)
  intro derived _
  apply Outcome.bind_ne_aborted
  · apply Outcome.forM_ne_aborted
    intro pair _
    exact Outcome.reject_ne_aborted
  intro _ _
  apply Outcome.bind_ne_aborted (Outcome.mapError_ne_aborted inner)
  intro result _
  cases result with
  | valid => exact Outcome.ok_ne_aborted _
  | invalid => exact Outcome.error_ne_aborted _

/-- Every view that the inner proof opens is one of the proof's own. -/
theorem mem_inner {proof : NonInteractiveProof} {repetition : Repetition} {opened : OpenedView}
    (listed : repetition ∈ proof.inner.repetitions) (inside : opened ∈ repetition.openedViews) :
    ∃ outer ∈ proof.repetitions, opened.view ∈ outer.openedViews := by
  rw [NonInteractiveProof.inner, List.mem_map] at listed
  obtain ⟨⟨outer, index⟩, entry, rfl⟩ := listed
  obtain ⟨⟨view, randomness⟩, zipped, rfl⟩ := List.mem_map.mp inside
  exact ⟨outer, List.mem_of_getElem? (List.mem_zipIdx_iff_getElem?.mp entry), (List.of_mem_zip zipped).1⟩

/-- On a circuit whose counts fit 32 bits neither verifier aborts, whatever the circuit,
the statement and the proof are, while the messages of the opened views fit their
length prefix. -/
theorem verifiers_return (expands : ∀ domain data outLen, (backend.expand domain data outLen).length = outLen)
    (nodes : circuit.nodes.length < 2 ^ 32) (outputs : circuit.outputs.length < 2 ^ 32) :
    (∀ (statement : Statement) (proof : NonInteractiveProof),
      (∀ repetition ∈ proof.repetitions, ∀ view ∈ repetition.openedViews, (commitmentMessage view).length < 2 ^ 32) →
        verify sha256 backend circuit statement proof ≠ .aborted) ∧
      ∀ (statement : Mpcith.Statement) (proof : MpcithProof),
        (∀ repetition ∈ proof.repetitions, ∀ opened ∈ repetition.openedViews,
          (commitmentMessage opened.view).length < 2 ^ 32) →
          Mpcith.verify sha256 backend statement proof circuit ≠ .aborted := by
  constructor
  · intro statement proof short
    apply verify_ne_aborted expands (statement.validate_ne_aborted nodes outputs)
    apply Mpcith.verify_ne_aborted nodes outputs
    intro repetition listed opened inside
    obtain ⟨outer, member, view⟩ := mem_inner listed inside
    exact short outer member opened.view view
  · intro statement proof short
    exact Mpcith.verify_ne_aborted nodes outputs short

end Verifier

section Limits

/-- One constant, published a number of times. -/
def repeatedOutput (count : ℕ) : Circuit FieldElement := ⟨[.constant 0], 0, 0, List.replicate count ⟨0⟩⟩

private theorem repeatedOutput_wellFormed {count : ℕ} (some : count ≠ 0) : (repeatedOutput count).WellFormed := by
  constructor
  · intro n node a b found gate
    rw [List.mem_singleton.mp (List.mem_of_getElem? found)] at gate
    cases gate
  · rfl
  · rfl
  · intro none
    exact some ((List.replicate_eq_nil_iff _).mp none)
  · intro id listed
    rw [List.eq_of_mem_replicate listed]
    exact Nat.one_pos

/-- A proof that opens views of no input shares. -/
def emptyProof (statement : Statement) : NonInteractiveProof :=
  ⟨protocolVersion, protocolId, (sha256Backend sha256).id, statement, [sharesRepetition 0 ⟨0⟩]⟩

private theorem emptyProof_encodable {statement : Statement} (encodable : statement.Encodable) :
    (emptyProof statement).Encodable := by
  refine ⟨rfl, rfl, List.mem_cons_self, encodable, (by decide : 1 ≤ maxProofRepetitions), ?_⟩
  intro repetition listed
  rw [List.mem_singleton.mp listed]
  exact sharesRepetition_encodable (Nat.two_pow_pos 27) ⟨0⟩

private theorem emptyProof_short {statement : Statement} :
    ∀ repetition ∈ (emptyProof statement).repetitions, ∀ view ∈ repetition.openedViews,
      (commitmentMessage view).length < 2 ^ 32 := by
  intro repetition listed view inside
  rw [List.mem_singleton.mp listed, sharesRepetition, List.mem_map] at inside
  obtain ⟨party, _, rfl⟩ := inside
  rw [sharesView_message_length]
  decide

/-- The id of a circuit with more outputs than a count holds aborts the verifier. -/
private theorem verify_repeatedOutput {count : ℕ} (many : 2 ^ 32 ≤ count) (statement : Statement) :
    verify sha256 (sha256Backend sha256) (repeatedOutput count) statement (emptyProof statement) = .aborted := by
  have valid : (repeatedOutput count).validate = .ok () :=
    Circuit.validate_ok_iff.mpr (repeatedOutput_wellFormed ((Nat.two_pow_pos 32).trans_le many).ne')
  have nodes : (repeatedOutput count).nodes.length < 2 ^ 32 := (by decide : 1 < 2 ^ 32)
  have counted : ¬(repeatedOutput count).outputs.length < 2 ^ 32 := by
    rw [repeatedOutput, List.length_replicate]
    exact many.not_gt
  have unnamed : ((repeatedOutput count).computeId sha256 : Outcome ProofError CircuitId) = .aborted := by
    rw [Circuit.computeId, Circuit.serialize, Outcome.assert_of nodes, Outcome.ok_bind, Outcome.assert, if_neg counted]
    rfl
  have aborts : statement.validate sha256 (repeatedOutput count) = .aborted := by
    rw [Statement.validate, valid, Outcome.mapError_ok, Outcome.ok_bind, unnamed]
    rfl
  rw [verify, Outcome.reject_of_not (by simp [emptyProof]), Outcome.ok_bind,
    Outcome.reject_of_not (by simp [emptyProof]), Outcome.ok_bind, Outcome.reject_of_not (by simp [emptyProof]),
    Outcome.ok_bind, aborts]
  rfl

/-- Neither bound of `verifiers_return` can be left out: decoded proofs abort the verifier
on a circuit of one node with `2 ^ 32` outputs, and on a circuit with one output when
their encoded views come close to `2 ^ 32` bytes. -/
theorem verify_aborts :
    (∃ (circuit : Circuit FieldElement) (statement : Statement) (bytes : Bytes) (proof : NonInteractiveProof),
      circuit.nodes.length < 2 ^ 32 ∧ deserializeProof bytes = .ok proof ∧
        (∀ repetition ∈ proof.repetitions, ∀ view ∈ repetition.openedViews, (commitmentMessage view).length < 2 ^ 32) ∧
        verify sha256 (sha256Backend sha256) circuit statement proof = .aborted) ∧
      ∃ (circuit : Circuit FieldElement) (statement : Statement) (bytes : Bytes) (proof : NonInteractiveProof),
        circuit.nodes.length < 2 ^ 32 ∧ circuit.outputs.length < 2 ^ 32 ∧ deserializeProof bytes = .ok proof ∧
          (∀ repetition ∈ proof.repetitions, ∀ view ∈ repetition.openedViews, (encodeView view).length < 2 ^ 32) ∧
          verify sha256 (sha256Backend sha256) circuit statement proof = .aborted := by
  constructor
  · obtain ⟨count, many⟩ : ∃ count : ℕ, 2 ^ 32 ≤ count := ⟨_, le_rfl⟩
    have encodable : (emptyProof ⟨zeroDigest, [], []⟩).Encodable :=
      emptyProof_encodable ⟨Nat.two_pow_pos 32, Nat.two_pow_pos 32⟩
    exact ⟨repeatedOutput count, ⟨zeroDigest, [], []⟩, _, _, (by decide : 1 < 2 ^ 32),
      deserializeProof_ok_iff.mpr ⟨encodable, rfl⟩, emptyProof_short, verify_repeatedOutput many _⟩
  · have nodes : (repeatedOutput 1).nodes.length < 2 ^ 32 := (by decide : 1 < 2 ^ 32)
    have outputs : (repeatedOutput 1).outputs.length < 2 ^ 32 := (by decide : 1 < 2 ^ 32)
    obtain ⟨proof, _, encodable, aborts⟩ := @exists_aborting sha256 (repeatedOutput 1)
      ⟨_, [], [0]⟩ ⟨repeatedOutput_wellFormed Nat.one_ne_zero, Circuit.computeId_total sha256 nodes outputs, rfl, rfl⟩
    refine ⟨repeatedOutput 1, _, _, proof, nodes, outputs, deserializeProof_ok_iff.mpr ⟨encodable, rfl⟩, ?_, aborts⟩
    intro repetition listed view inside
    have each := encodable.each repetition listed
    obtain ⟨k, found⟩ := List.mem_iff_getElem?.mp inside
    have bound : k < repetition.openingRandomness.length := by
      rw [each.openingRandomness, ← each.openedViews]
      exact (List.getElem?_eq_some_iff.mp found).1
    have paired : (view, repetition.openingRandomness[k]) ∈ repetition.openedViews.zip repetition.openingRandomness :=
      List.mem_iff_getElem?.mpr ⟨k, List.getElem?_zip_eq_some.mpr ⟨found, List.getElem?_eq_getElem bound⟩⟩
    exact (each.openings _ paired).viewLength

/-- A decoded proof of two repetitions that verifies for a product: both verifiers return
for every statement. -/
theorem verifiers_return_product : ∃ bytes proof, deserializeProof bytes = .ok proof ∧ proof.repetitions.length = 2 ∧
    verify sha256 (sha256Backend sha256) MpcithProver.productCircuit Prover.productStatement proof = .ok .valid ∧
    (∀ statement, verify sha256 (sha256Backend sha256) MpcithProver.productCircuit statement proof ≠ .aborted) ∧
    ∀ statement, Mpcith.verify sha256 (sha256Backend sha256) statement proof.inner MpcithProver.productCircuit ≠
      .aborted := by
  have honest : (⟨MpcithProver.productCircuit, Prover.productStatement, [2, 3]⟩ : Prover).interactive.Honest sha256 :=
    MpcithProver.product_honest
  obtain ⟨proof, next, proved⟩ := @Prover.exists_prove sha256 _ 2 ⟨MpcithProver.zeroTape, 0, 0⟩ honest
    (by decide +kernel) (by decide)
  obtain ⟨verified, length⟩ := Prover.prove_verified honest proved
  have aligned := Prover.prove_aligned proved
  have encodable : proof.Encodable := verified.encodable List.mem_cons_self (by rw [length]; decide) aligned
  have short : ∀ repetition ∈ proof.repetitions, ∀ view ∈ repetition.openedViews,
      (commitmentMessage view).length < 2 ^ 32 :=
    fun repetition inside view shown => verified.message_lt inside (aligned repetition inside) shown
  obtain ⟨returns, returns'⟩ := @verifiers_return sha256 (sha256Backend sha256) MpcithProver.productCircuit
    (sha256Backend_expand_length sha256) (by decide) (by decide)
  refine ⟨serializeProof proof, proof, deserializeProof_ok_iff.mpr ⟨encodable, rfl⟩, length,
    verify_valid_iff.mpr verified, fun statement => returns statement proof short, fun statement => ?_⟩
  refine returns' statement proof.inner fun repetition listed opened inside => ?_
  obtain ⟨outer, member, view⟩ := mem_inner listed inside
  exact short outer member opened.view view

end Limits

end PaymentAuth.Proof
