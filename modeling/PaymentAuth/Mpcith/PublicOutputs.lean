import PaymentAuth.Crypto.Sha256
import PaymentAuth.Mpcith.Forgery

/-! What a valid proof says of the outputs that depend on no secret input. -/

namespace PaymentAuth.Mpcith

open Library

/-- What the verifier needs of a circuit to accept any proof about it: a circuit
that validates and has an id, and two parties whose views can be encoded. -/
structure Acceptable (circuit : Circuit FieldElement) : Prop where
  wellFormed : circuit.WellFormed
  nodes : circuit.nodes.length < 2 ^ 32
  outputs : circuit.outputs.length < 2 ^ 32
  opened : ∃ hidden : PartyId, ∀ p ≠ hidden, commitmentSize circuit p < 2 ^ 32

variable {sha256 : Bytes → Digest} {backend : CryptoBackend} {circuit : Circuit FieldElement}

/-- A valid proof shows that its circuit is acceptable. -/
theorem acceptable_of_valid {statement : Statement} {proof : MpcithProof}
    (verified : verify sha256 backend statement proof circuit = .ok .valid) : Acceptable circuit := by
  obtain ⟨validated, nonempty, each⟩ := verify_valid_iff.mp verified
  obtain ⟨nodes, outputs⟩ := Circuit.computeId_ok_bounds validated.circuitId
  obtain ⟨repetition, rest, split⟩ := List.exists_cons_of_ne_nil nonempty
  obtain ⟨-, success⟩ := each 0 repetition (by simp [split])
  obtain ⟨views, randomness, globals, value, accepted⟩ :=
    (verifyRepetition_true_iff validated.wellFormed validated.publicInputs validated.expectedOutputs).mp success
  refine ⟨validated.wellFormed, nodes, outputs, repetition.challenge.hiddenParty, fun p shown => ?_⟩
  obtain ⟨commitment, -, committed⟩ := accepted.committed p shown
  obtain ⟨-, small, -⟩ := commitView_ok_iff.mp committed
  rwa [(accepted.coherent p shown).commitmentMessage_length validated.wellFormed, accepted.party p shown] at small

/-- One forged repetition. -/
def forgedProof (backend : CryptoBackend) (statement : Statement) (circuit : Circuit FieldElement)
    (hidden : PartyId) : MpcithProof :=
  ⟨[JointData.zero.forgedRepetition backend statement circuit (.ofIndex 0) JointData.zeroRandomness hidden]⟩

/-- A validated statement has a valid proof, whatever it expects, when two parties'
views can be encoded. -/
theorem forgedProof_valid {statement : Statement} {hidden : PartyId}
    (validated : statement.Validated sha256 circuit) (backend : CryptoBackend)
    (sizes : ∀ p ≠ hidden, commitmentSize circuit p < 2 ^ 32) :
    verify sha256 backend statement (forgedProof backend statement circuit hidden) circuit = .ok .valid := by
  refine verify_valid_iff.mpr ⟨validated, List.cons_ne_nil _ _, fun index repetition found => ?_⟩
  cases index with
  | zero =>
    obtain rfl := Option.some.inj found
    exact ⟨rfl, (verifyRepetition_true_iff validated.wellFormed validated.publicInputs
      validated.expectedOutputs).mpr ⟨_, _, _, _, JointData.forgedRepetition_accepted .zero backend
        validated.wellFormed (.ofIndex 0) JointData.zeroRandomness_length sizes⟩⟩
  | succ index => cases found

/-- The verifier ties public outputs to the statement exactly for the circuits that
have none of them, apart from the circuits it accepts no proof about. -/
theorem publicOutputs_checked_iff (sha256 : Bytes → Digest) (backend : CryptoBackend)
    (circuit : Circuit FieldElement) :
    (∀ (statement : Statement) (proof : MpcithProof),
        verify sha256 backend statement proof circuit = .ok .valid →
          ∀ (k : ℕ) (output : NodeId), circuit.outputs[k]? = some output →
            circuit.dependsOnSecrets output.asUsize = false →
              statement.expectedOutputs[k]? =
                some (circuit.publicValue (inputAt statement.publicInputs) output.asUsize)) ↔
      (∀ output ∈ circuit.outputs, circuit.dependsOnSecrets output.asUsize = true) ∨
        ¬Acceptable circuit := by
  constructor
  · intro checked
    by_cases acceptable : Acceptable circuit
    · refine .inl fun output member => ?_
      by_contra plain
      rw [Bool.not_eq_true] at plain
      obtain ⟨k, found⟩ := List.mem_iff_getElem?.mp member
      -- A statement that expects every output to be off by one.
      let publicInputs := List.replicate circuit.numPublicInputs (0 : FieldElement)
      let statement : Statement :=
        { circuitId := sha256HashDomain sha256 circuitIdDomain circuit.encode
          publicInputs := publicInputs
          expectedOutputs := circuit.outputs.map fun id =>
            circuit.publicValue (inputAt publicInputs) id.asUsize + 1 }
      obtain ⟨valid, nodes, outputs, hidden, sizes⟩ := acceptable
      have validated : statement.Validated sha256 circuit :=
        ⟨valid, Circuit.computeId_total sha256 nodes outputs, List.length_replicate, List.length_map _⟩
      have expected := checked statement _ (forgedProof_valid validated backend sizes) k output found plain
      simp only [statement, List.getElem?_map, found, Option.map_some, Option.some.injEq] at expected
      exact one_ne_zero (left_eq_add.mp expected.symm)
    · exact .inr acceptable
  · intro either statement proof verified k output found plain
    rcases either with secret | unacceptable
    · have depends := secret output (List.mem_of_getElem? found)
      rw [plain] at depends
      cases depends
    · exact absurd (acceptable_of_valid verified) unacceptable

/-- A secret input beside the constant five, which is the output. -/
def constantCircuit : Circuit FieldElement where
  nodes := [.secretInput, .constant 5]
  numSecretInputs := 1
  numPublicInputs := 0
  outputs := [⟨1⟩]

def constantStatement : Statement where
  circuitId := sha256HashDomain PaymentAuth.sha256 circuitIdDomain constantCircuit.encode
  publicInputs := []
  expectedOutputs := [6]

/-- A valid proof that the constant five is six. -/
theorem publicOutputs_unchecked :
    verify PaymentAuth.sha256 (sha256Backend PaymentAuth.sha256) constantStatement
        (forgedProof (sha256Backend PaymentAuth.sha256) constantStatement constantCircuit 0) constantCircuit =
          .ok .valid ∧
      constantCircuit.outputs[0]? = some ⟨1⟩ ∧ constantCircuit.dependsOnSecrets 1 = false ∧
      constantStatement.expectedOutputs[0]? ≠
        some (constantCircuit.publicValue (inputAt constantStatement.publicInputs) 1) := by
  have checked : constantCircuit.validate = .ok () := by decide +kernel
  have validated : constantStatement.Validated PaymentAuth.sha256 constantCircuit :=
    ⟨Circuit.validate_ok_iff.mp checked, rfl, rfl, rfl⟩
  exact ⟨forgedProof_valid validated _ (by decide +kernel), rfl, by decide +kernel, by decide +kernel⟩

end PaymentAuth.Mpcith
