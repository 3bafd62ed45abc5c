import PaymentAuth.Payment.Authorization
import PaymentAuth.Proof.Transport

/-! What the payer proves is what the verifier rebuilds. -/

namespace PaymentAuth

open Library Mpcith

section Inputs

variable {sha256 : Bytes → Digest} {policy : Policy} {compiled : CompiledPolicy FieldElement} {root : NodeId}
  {wiring : Wiring} {witness : PolicyWitness} {secrets publics values : List FieldElement}

/-- The prover's public inputs are those that the wiring declares. -/
theorem Compiled.buildInputs_publics (correct : Compiled policy compiled root wiring)
    (matched : witness.validateAgainst policy = .ok ())
    (built : compiled.buildInputs sha256 policy witness = .ok (secrets, publics)) :
    publics = wiring.subformulas.flatMap partPublics := by
  obtain ⟨filled, values, fills, prepared, -⟩ :=
    correct.fill_ok sha256 (PolicyWitness.covers_of_matched matched)
  rw [CompiledPolicy.buildInputs, Policy.normalize, Outcome.ok_bind, fills, Outcome.ok_bind] at built
  obtain ⟨solved, _, returned⟩ := Outcome.bind_ok_iff.mp built
  cases returned
  exact prepared.publics

/-- A policy whose reference evaluation succeeds is accepted by its circuit. -/
theorem Compiled.policyAccepts_of_reference (correct : Compiled policy compiled root wiring)
    (matched : witness.validateAgainst policy = .ok ())
    (built : compiled.buildInputs sha256 policy witness = .ok (secrets, publics))
    (authorized : compiled.referenceEvaluate sha256 policy witness = .ok true) :
    PolicyAccepts compiled policy secrets := by
  obtain rfl := correct.buildInputs_publics matched built
  rw [CompiledPolicy.referenceEvaluate, built, Outcome.ok_bind] at authorized
  obtain ⟨values, evaluated, authorized⟩ := Outcome.bind_ok_iff.mp authorized
  obtain ⟨violated, checked, authorized⟩ := Outcome.bind_ok_iff.mp authorized
  have size := ((evalAllNodes_ok_iff correct.wellFormed).mp evaluated).2.2.1
  have outputs : ∀ id ∈ compiled.circuit.outputs, id.asUsize < values.length := by
    rw [size]
    exact correct.wellFormed.outputs
  have published : compiled.circuit.outputs.take compiled.rangeCheckOutputs = wiring.layout.constraints := by
    rw [correct.outputs, correct.rangeCheckOutputs, List.take_left]
  cases violated with
  | true => cases authorized
  | false =>
    rw [CompiledPolicy.anyNonzero_false_iff fun id member => outputs id (List.mem_of_mem_take member),
      published] at checked
    have rootInside := outputs root (List.mem_of_getLast? correct.last_output)
    simp only [correct.last_output, Outcome.okOr_some, Outcome.ok_bind, inputAt_of_lt rootInside, Outcome.expect_some,
      Bool.false_eq_true, if_false, Outcome.ok.injEq, beq_iff_eq] at authorized
    exact correct.policyAccepts_iff.mpr ⟨_, correct.evalAllNodes_runs evaluated, checked, authorized⟩

/-- Acceptance by the policy is acceptance by the bound circuit. -/
theorem Compiled.boundAccepts_of_policyAccepts (correct : Compiled policy compiled root wiring)
    (statement : PaymentStatement) (accepted : PolicyAccepts compiled policy secrets) :
    BoundAccepts compiled policy statement secrets := by
  obtain ⟨value, runs, zeros, one⟩ := correct.policyAccepts_iff.mp accepted
  exact correct.boundAccepts_iff.mpr ⟨value, runs, zeros, by rw [one, one_mul]⟩

end Inputs

section Authorizing

variable {sha256 : Bytes → Digest} {statement : PaymentStatement} {witness : PrivateWitness} {policy : Policy}
  {rng next : Rng} {proof : Proof.NonInteractiveProof}

/-- What the payer proves is what the verifier expects of the bound circuit. -/
theorem authorizePayment_ok (authorized : authorizePayment sha256 statement witness policy rng = .ok (proof, next)) :
    statement.Names sha256 policy ∧ ∃ compiled root wiring secrets, compile policy = .ok compiled ∧
      Compiled policy compiled root wiring ∧ BoundAccepts compiled policy statement secrets ∧
        (paymentProver compiled root wiring statement secrets).prove sha256 (sha256Backend sha256)
          authorizationRepetitions rng = .ok (proof, next) := by
  simp only [authorizePayment, Outcome.bind_ok_iff, checkStatementBinding_ok_iff, AuthorizationRelation.validate_ok_iff,
    exists_const, Prod.exists] at authorized
  obtain ⟨names, ⟨valid, named, amounts, caps, policyWitness, paired, ⟨result, evaluated, holds⟩, compiled, compiles,
    agrees⟩, compiled', compiles', bound, binds, secrets, publics, built, outputs, evaluates, circuitId, computed,
    prover, created, proved⟩ := authorized
  cases (compile_ok_iff.mpr compiles).symm.trans compiles'
  obtain ⟨root, wiring, correct⟩ := compileWithLayout_ok compiles
  rw [correct.bindStatement_eq, Outcome.ok.injEq] at binds
  subst binds
  have matched := PrivateWitness.toPolicyWitness_matches paired
  rw [buildInputs, paired, Outcome.ok_bind, Outcome.mapError_ok_iff] at built
  have accepted := correct.boundAccepts_of_policyAccepts statement (correct.policyAccepts_of_reference matched built agrees)
  obtain rfl := correct.buildInputs_publics matched built
  have sameId : circuitId = statement.circuitId := by
    have expected := names.circuitId
    rw [paymentCircuitId_eq compiles' correct, computed, Outcome.ok.injEq] at expected
    exact expected
  have sameOutputs : outputs = expectedOutputs compiled statement := by
    obtain ⟨bound', publics', binds, inputs, expected⟩ := accepted
    cases correct.bindStatement_eq.symm.trans binds
    cases (correct.boundPublicInputs_eq statement).symm.trans inputs
    rw [referenceOutputs, expected, Outcome.mapError_ok, Outcome.ok.injEq] at evaluates
    exact evaluates.symm
  obtain rfl := Proof.Prover.new_ok (Outcome.mapError_ok_iff.mp created)
  refine ⟨names, compiled, root, wiring, secrets, compiles', correct, accepted, ?_⟩
  rw [paymentProver, provenStatement, ← sameId, ← sameOutputs]
  exact Outcome.mapError_ok_iff.mp proved

/-- A payment that was authorized verifies, with a proof that survives the wire. -/
theorem authorizePayment_verified
    (authorized : authorizePayment sha256 statement witness policy rng = .ok (proof, next)) :
    verifyPaymentAuthorization sha256 statement proof policy = .ok true ∧ proof.Encodable := by
  obtain ⟨names, compiled, root, wiring, secrets, compiles, correct, accepted, proved⟩ := authorizePayment_ok authorized
  have honest := paymentProver_honest compiles correct names accepted
  obtain ⟨verified, length⟩ := Proof.Prover.prove_verified honest proved
  refine ⟨(verifyPaymentAuthorization_true_iff compiles correct).mpr ⟨names, verified⟩, ?_⟩
  refine verified.encodable List.mem_cons_self ?_ (Proof.Prover.prove_aligned proved)
  rw [length]
  decide

/-- Authorization succeeds wherever the plaintext relation holds. -/
theorem exists_authorizePayment (names : statement.Names sha256 policy)
    (related : AuthorizationRelation.validate sha256 statement witness policy = .ok ()) :
    ∃ proof next, authorizePayment sha256 statement witness policy rng = .ok (proof, next) := by
  obtain ⟨-, -, -, -, policyWitness, paired, -, compiled, compiles, agrees⟩ :=
    AuthorizationRelation.validate_ok_iff.mp related
  obtain ⟨root, wiring, correct⟩ := compileWithLayout_ok compiles
  obtain ⟨⟨secrets, publics⟩, built, _⟩ := Outcome.bind_ok_iff.mp agrees
  have matched := PrivateWitness.toPolicyWitness_matches paired
  have accepted := correct.boundAccepts_of_policyAccepts statement (correct.policyAccepts_of_reference matched built agrees)
  have honest := paymentProver_honest (compile_ok_iff.mpr compiles) correct names accepted
  have circuitId := names.circuitId
  rw [paymentCircuitId_eq (compile_ok_iff.mpr compiles) correct] at circuitId
  have sizes := correct.bound_sizes
  obtain ⟨proof, next, proved⟩ := @Proof.Prover.exists_prove sha256 _ authorizationRepetitions rng honest sizes (by decide)
  have inputs : buildInputs sha256 compiled policy witness = .ok (secrets, publics) := by
    rw [buildInputs, paired, Outcome.ok_bind, built, Outcome.mapError_ok]
  obtain rfl := correct.buildInputs_publics matched built
  have outputs : referenceOutputs (boundCircuit compiled.circuit root) secrets
      (wiring.subformulas.flatMap partPublics ++ bindingValues statement) = .ok (expectedOutputs compiled statement) :=
    Outcome.mapError_ok_iff.mpr honest.evaluates
  have created : Proof.Prover.new sha256 (boundCircuit compiled.circuit root)
      (provenStatement compiled wiring statement) secrets =
        .ok (paymentProver compiled root wiring statement secrets) :=
    Outcome.bind_ok_iff.mpr ⟨(), Proof.Statement.validate_ok_iff.mpr honest.validated,
      Outcome.bind_ok_iff.mpr ⟨(), Outcome.reject_ok_iff.mpr (not_not.mpr honest.witnessCount), rfl⟩⟩
  have named : checkStatementBinding sha256 statement policy = .ok () := checkStatementBinding_ok_iff.mpr names
  refine ⟨proof, next, ?_⟩
  simp only [authorizePayment, named, related, compile_ok_iff.mpr compiles,
    correct.bindStatement_eq, inputs, outputs, circuitId, Outcome.ok_bind]
  rw [← provenStatement, created, Outcome.mapError_ok, Outcome.ok_bind, proved, Outcome.mapError_ok]

/-- A payment within the caps is authorized for secrets that open the policy. -/
theorem exists_authorizePayment_of_opened (names : statement.Names sha256 policy) (valid : policy.validate = .ok ())
    (checked : witness.validate policy = .ok ()) (amounts : witness.amount = statement.amount)
    (caps : ∀ limit ∈ policy.limits, AuthorizationRelation.checkLimit witness limit = .ok ())
    (opened : policy.formula.eval (Policy.leafSatisfied sha256 (witness.pairedWith policy.policyCredentialIds)) = true) :
    ∃ proof next, authorizePayment sha256 statement witness policy rng = .ok (proof, next) := by
  have paired : witness.toPolicyWitness policy = .ok (witness.pairedWith policy.policyCredentialIds) :=
    PrivateWitness.toPolicyWitness_ok_iff.mpr ⟨checked, rfl⟩
  have matched := PrivateWitness.toPolicyWitness_matches paired
  obtain ⟨result, evaluated, decided⟩ := @Policy.evaluate_eq sha256 _ _ matched
  obtain ⟨compiled, compiles, -⟩ := Outcome.bind_ok_iff.mp names.circuitId
  rw [compile_ok_iff] at compiles
  have agrees := @CompiledPolicy.referenceEvaluate_eq sha256 _ _ _ compiles (PolicyWitness.covers_of_matched matched)
  rw [Policy.eval_leafMatched_of_satisfied opened] at agrees
  exact exists_authorizePayment names (AuthorizationRelation.validate_ok_iff.mpr ⟨valid, names.policyId, amounts, caps,
    _, paired, ⟨result, evaluated, decided.trans opened⟩, compiled, compiles, agrees⟩)

end Authorizing

end PaymentAuth
