import PaymentAuth.Mpcith.Completeness

/-! What the verifier says of the proofs of any witness, also of one that does not evaluate to
the expected outputs. -/

namespace PaymentAuth.Mpcith

open Library

/-- Whether two lists of outputs agree wherever an output depends on the secret inputs. -/
def agreeOnSecrets (circuit : Circuit FieldElement) (outputs expected : List FieldElement) : Bool :=
  circuit.outputs.zipIdx.all fun (output, k) =>
    !circuit.dependsOnSecrets output.asUsize || decide (outputs[k]? = expected[k]?)

/-- The statement that expects other outputs. -/
def Statement.expecting (statement : Statement) (outputs : List FieldElement) : Statement :=
  { statement with expectedOutputs := outputs }

section Checks

variable {backend : CryptoBackend} {statement : Statement} {circuit : Circuit FieldElement} {repetition : Repetition}
  {outputs : List FieldElement}

/-- A judged repetition opens the two parties that its challenge does not name, in order. -/
theorem openedParties_of_verifyRepetition {verdict : Bool}
    (judged : verifyRepetition backend statement repetition circuit = .ok verdict) :
    repetition.openedViews.map (fun opened => opened.view.partyId) =
      PartyId.others repetition.challenge.hiddenParty := by
  simp only [verifyRepetition, PartyId.new_get, Outcome.ok_bind, Outcome.bind_ok_iff, Outcome.reject_ok_iff,
    not_not] at judged
  obtain ⟨_, -, _, ordered, -⟩ := judged
  exact ordered

/-- An output that passes for the evaluated value fails exactly for another expected one. -/
private theorem checkOutput_expecting (valid : circuit.WellFormed)
    (sizes : statement.expectedOutputs.length = circuit.outputs.length)
    {replays : List (List (NodeVal FieldElement))} {output : NodeId} {k : ℕ} (found : circuit.outputs[k]? = some output)
    (passed : checkOutput (statement.expecting outputs) repetition circuit replays (output, k) = .ok true) :
    checkOutput statement repetition circuit replays (output, k) =
      .ok (!circuit.dependsOnSecrets output.asUsize || decide (outputs[k]? = statement.expectedOutputs[k]?)) := by
  have below : k < statement.expectedOutputs.length := sizes ▸ (List.getElem?_eq_some_iff.mp found).1
  have bound := valid.outputs output (List.mem_of_getElem? found)
  have expected := List.getElem?_eq_getElem below
  simp only [checkOutput, Statement.expecting, nodeDependsOnSecrets_eq valid bound, Outcome.ok_bind,
    Outcome.bind_ok_iff, Outcome.okOr_ok_iff, Outcome.expect_ok_iff] at passed
  obtain ⟨value, evaluated, hidden, read, passed⟩ := passed
  simp only [checkOutput, expected, evaluated, read, nodeDependsOnSecrets_eq valid bound, Outcome.okOr_some,
    Outcome.expect_some, Outcome.ok_bind]
  cases depends : circuit.dependsOnSecrets output.asUsize with
  | false =>
    rw [depends] at passed
    simpa using passed
  | true =>
    rw [depends] at passed
    simp only [Bool.not_true, Bool.false_eq_true, if_false, Outcome.bind_ok_iff, Outcome.ok.injEq,
      decide_eq_true_eq] at passed
    obtain ⟨total, opened, rfl⟩ := passed
    simp only [Bool.not_true, Bool.false_eq_true, if_false, opened, Outcome.ok_bind, Bool.false_or, Option.some.injEq]

/-- A repetition that passes for the evaluated outputs passes exactly where these are expected. -/
theorem verifyRepetition_expecting (valid : circuit.WellFormed)
    (sizes : statement.expectedOutputs.length = circuit.outputs.length)
    (passed : verifyRepetition backend (statement.expecting outputs) repetition circuit = .ok true) :
    verifyRepetition backend statement repetition circuit =
      .ok (agreeOnSecrets circuit outputs statement.expectedOutputs) := by
  simp only [verifyRepetition, checkOutputs, Outcome.bind_ok_iff] at passed
  obtain ⟨hidden, named, _, complete, _, ordered, _, opened, globals, masks, replays, replayed, _, counted, passed⟩ :=
    passed
  have same (view : PartyView) : replayParty (statement.expecting outputs) view circuit globals =
      replayParty statement view circuit globals := rfl
  simp only [same] at replayed
  simp only [verifyRepetition, checkOutputs, named, complete, ordered, opened, masks, replayed, counted,
    Outcome.ok_bind]
  rw [agreeOnSecrets]
  apply Outcome.allM_ok_of_forall
  rintro ⟨output, k⟩ listed
  have found := List.mk_mem_zipIdx_iff_getElem?.mp listed
  exact checkOutput_expecting valid sizes found (Outcome.allM_ok_true_iff.mp passed (output, k) listed)

/-- A proof that is valid for the evaluated outputs is valid exactly where these are expected. -/
theorem verify_expecting {sha256 : Bytes → Digest} {proof : MpcithProof}
    (validated : statement.Validated sha256 circuit)
    (passed : verify sha256 backend (statement.expecting outputs) proof circuit = .ok .valid) :
    verify sha256 backend statement proof circuit =
      .ok (if agreeOnSecrets circuit outputs statement.expectedOutputs then .valid else .invalid) := by
  obtain ⟨-, nonempty, each⟩ := verify_valid_iff.mp passed
  have judged : ∀ item ∈ proof.repetitions.zipIdx, (do
      Outcome.reject (item.1.id ≠ .ofIndex item.2) .inconsistentView
      verifyRepetition backend statement item.1 circuit : Outcome MpcithError Bool) =
        .ok (agreeOnSecrets circuit outputs statement.expectedOutputs) := by
    intro item listed
    obtain ⟨numbered, accepted⟩ := each item.2 item.1 (List.mem_zipIdx_iff_getElem?.mp listed)
    rw [Outcome.reject_of_not (not_not.mpr numbered), Outcome.ok_bind]
    exact verifyRepetition_expecting validated.wellFormed validated.expectedOutputs accepted
  have checked : statement.validate sha256 circuit = .ok () := Statement.validate_ok_iff.mpr validated
  have repeated : proof.repetitions.isEmpty ≠ true := by rwa [ne_eq, List.isEmpty_iff]
  rw [verify, checked, Outcome.ok_bind, Outcome.reject_of_not repeated, Outcome.ok_bind,
    Outcome.allM_ok_of_forall _ judged, Outcome.ok_bind]
  cases split : proof.repetitions with
  | nil => exact absurd split nonempty
  | cons repetition rest => cases agreeOnSecrets circuit outputs statement.expectedOutputs <;> simp

end Checks

namespace MpcithProver

variable {sha256 : Bytes → Digest} {backend : CryptoBackend} {prover : MpcithProver} {outputs : List FieldElement}
  {rng : Rng}

/-- The prover that expects other outputs. -/
def expecting (prover : MpcithProver) (outputs : List FieldElement) : MpcithProver :=
  { prover with statement := prover.statement.expecting outputs }

theorem commitRepetition_expecting (id : RepetitionId) :
    (prover.expecting outputs).commitRepetition backend id rng = prover.commitRepetition backend id rng := rfl

theorem proveRepetitions_expecting {σ : Type} {source : σ}
    {challengeOf : σ → RepetitionId → List ViewCommitment → Outcome MpcithError (Challenge × σ)} {indices : List ℕ} :
    (prover.expecting outputs).proveRepetitions backend challengeOf indices source rng =
      prover.proveRepetitions backend challengeOf indices source rng := by
  induction indices generalizing source rng with
  | nil => rfl
  | cons index rest ih => simp only [proveRepetitions, commitRepetition_expecting, ih]

theorem commitRepetitions_expecting {indices : List ℕ} :
    (prover.expecting outputs).commitRepetitions backend indices rng =
      prover.commitRepetitions backend indices rng := by
  induction indices generalizing rng with
  | nil => rfl
  | cons index rest ih => simp only [commitRepetitions, commitRepetition_expecting, ih]

theorem proveWith_expecting {σ : Type} {source : σ} {repetitionCount : UInt32}
    {challengeOf : σ → RepetitionId → List ViewCommitment → Outcome MpcithError (Challenge × σ)} :
    (prover.expecting outputs).proveWith backend repetitionCount challengeOf source rng =
      prover.proveWith backend repetitionCount challengeOf source rng := by
  rw [proveWith, proveRepetitions_expecting]
  rfl

theorem proveJointFs_expecting {repetitionCount : UInt32}
    {challengesOf : List (RepetitionId × List ViewCommitment) → Outcome MpcithError (List Challenge)} :
    (prover.expecting outputs).proveJointFs backend repetitionCount challengesOf rng =
      prover.proveJointFs backend repetitionCount challengesOf rng := by
  rw [proveJointFs, commitPhase, commitRepetitions_expecting]
  rfl

/-- A prover with matching counts is honest about the outputs its witness evaluates to. -/
theorem exists_honest (validated : prover.statement.Validated sha256 prover.circuit)
    (witnessCount : prover.witness.length = prover.circuit.numSecretInputs) :
    ∃ outputs, evaluateReference prover.circuit prover.witness prover.statement.publicInputs = .ok outputs ∧
      (prover.expecting outputs).Honest sha256 := by
  have evaluates := evaluateReference_of_solves validated.wellFormed witnessCount validated.publicInputs
    (validated.wellFormed.valueOf_solves _ 0)
  exact ⟨_, evaluates, ⟨validated.wellFormed, validated.circuitId, validated.publicInputs, List.length_map _⟩,
    witnessCount, evaluates⟩

theorem newBackend_ok_iff {circuit : Circuit FieldElement} {statement : Statement} {witness : List FieldElement} :
    newBackend sha256 circuit statement witness = .ok prover ↔
      statement.Validated sha256 circuit ∧ witness.length = circuit.numSecretInputs ∧
        prover = ⟨circuit, statement, witness⟩ := by
  simp only [newBackend, Outcome.bind_ok_iff, Statement.validate_ok_iff, Outcome.reject_ok_iff, exists_const, not_not,
    Outcome.ok.injEq]
  exact and_congr_right fun _ => and_congr_right fun _ => eq_comm

/-- The verifier's verdict on a proof is that of the evaluation of its witness: under every
tape and every challenge, a proof is valid where the expected outputs that depend on the secrets
are the evaluated ones, and invalid elsewhere. The prover does not look at them. -/
theorem prove_verdict {circuit : Circuit FieldElement} {statement : Statement} {witness : List FieldElement}
    (created : newBackend sha256 circuit statement witness = .ok prover) (repetitionCount : UInt32) (rng : Rng) :
    ∃ outputs, evaluateReference circuit witness statement.publicInputs = .ok outputs ∧
      (∀ (σ : Type) (challengeOf : σ → RepetitionId → List ViewCommitment → Outcome MpcithError (Challenge × σ))
        (source : σ) (proof : MpcithProof) (next : Rng),
        prover.proveWith backend repetitionCount challengeOf source rng = .ok (proof, next) →
          verify sha256 backend statement proof circuit =
            .ok (if agreeOnSecrets circuit outputs statement.expectedOutputs then .valid else .invalid)) ∧
      (∀ (challengesOf : List (RepetitionId × List ViewCommitment) → Outcome MpcithError (List Challenge))
        (proof : MpcithProof) (next : Rng),
        prover.proveJointFs backend repetitionCount challengesOf rng = .ok (proof, next) →
          verify sha256 backend statement proof circuit =
            .ok (if agreeOnSecrets circuit outputs statement.expectedOutputs then .valid else .invalid)) ∧
      ((∀ p, commitmentSize circuit p < 2 ^ 32) → repetitionCount ≠ 0 →
        ∀ challengeOf : RepetitionId → List ViewCommitment → Challenge,
          (∃ proof next, prover.proveWith backend repetitionCount
            (fun (_ : Unit) id commitments => .ok (challengeOf id commitments, ())) () rng = .ok (proof, next)) ∧
          ∃ proof next, prover.proveJointFs backend repetitionCount
            (fun sessions => .ok (sessions.map fun (id, commitments) => challengeOf id commitments)) rng =
              .ok (proof, next)) := by
  obtain ⟨validated, witnessCount, rfl⟩ := newBackend_ok_iff.mp created
  obtain ⟨outputs, evaluates, honest⟩ := @exists_honest sha256 ⟨circuit, statement, witness⟩ validated witnessCount
  refine ⟨outputs, evaluates, ?_, ?_, ?_⟩
  · intro σ challengeOf source proof next proved
    apply verify_expecting validated
    apply honest.proveWith_valid
    rw [proveWith_expecting]
    exact proved
  · intro challengesOf proof next proved
    apply verify_expecting validated
    apply honest.proveJointFs_valid
    rw [proveJointFs_expecting]
    exact proved
  · intro sizes positive challengeOf
    have alone := @Honest.proveWith_total _ rng sha256 backend repetitionCount honest sizes positive challengeOf
    have joint := @Honest.proveJointFs_total _ rng sha256 backend repetitionCount honest sizes positive challengeOf
    rw [proveWith_expecting] at alone
    rw [proveJointFs_expecting] at joint
    exact ⟨alone, joint⟩

/-- Factors of the wrong product are proved, and the proof is found invalid. -/
theorem prove_verdict_product :
    ∃ prover proof next,
      newBackend PaymentAuth.sha256 productCircuit productStatement [1, 1] = .ok prover ∧
      prover.proveJointFs (sha256Backend PaymentAuth.sha256) 2
        (fun sessions => .ok (sessions.map fun (id, _) => if id.get = 0 then ⟨1⟩ else ⟨2⟩)) ⟨zeroTape, 0, 0⟩ =
          .ok (proof, next) ∧
      verify PaymentAuth.sha256 (sha256Backend PaymentAuth.sha256) productStatement proof productCircuit =
        .ok .invalid := by
  have created : newBackend PaymentAuth.sha256 productCircuit productStatement [1, 1] =
      .ok ⟨productCircuit, productStatement, [1, 1]⟩ := by
    have checked : productStatement.validate PaymentAuth.sha256 productCircuit = .ok () := by decide +kernel
    exact newBackend_ok_iff.mpr ⟨Statement.validate_ok_iff.mp checked, rfl, rfl⟩
  obtain ⟨outputs, evaluates, -, joint, total⟩ := @prove_verdict PaymentAuth.sha256
    (sha256Backend PaymentAuth.sha256) _ _ _ _ created 2 ⟨zeroTape, 0, 0⟩
  obtain ⟨-, proof, next, proved⟩ := total (by decide +kernel) (by decide) fun id _ => if id.get = 0 then ⟨1⟩ else ⟨2⟩
  have two : evaluateReference productCircuit [1, 1] productStatement.publicInputs = .ok [1 + 1] := by decide +kernel
  obtain rfl := Outcome.ok.inj (evaluates.symm.trans two)
  have differ : agreeOnSecrets productCircuit [1 + 1] productStatement.expectedOutputs = false := by decide +kernel
  have verdict := joint _ proof next proved
  rw [differ] at verdict
  exact ⟨_, proof, next, created, proved, verdict⟩

end MpcithProver

end PaymentAuth.Mpcith
