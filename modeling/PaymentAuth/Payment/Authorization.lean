import PaymentAuth.Mpcith.Weight
import PaymentAuth.Payment.Relation
import PaymentAuth.Proof.Prover

/-! Proving and verifying payments. -/

namespace PaymentAuth

open Library Mpcith

/-- Repetitions used for payment authorizations. -/
def authorizationRepetitions : UInt32 := 12

/-- The circuit id that a statement for a policy must carry. -/
def paymentCircuitId (sha256 : Bytes → Digest) (policy : Policy) : Outcome PaymentError CircuitId := do
  let compiled ← compile policy
  let bound ← bindStatement compiled
  bound.computeId sha256

/-- Rejects statements whose version or ids are not those of the policy. -/
def checkStatementBinding (sha256 : Bytes → Digest) (statement : PaymentStatement) (policy : Policy) :
    Outcome PaymentError Unit := do
  Outcome.reject (statement.protocolVersion ≠ Proof.protocolVersion) .statementMismatch
  let policyId ← policy.policyId sha256
  Outcome.reject (policyId ≠ statement.policyId) .policyIdMismatch
  let circuitId ← paymentCircuitId sha256 policy
  Outcome.reject (circuitId ≠ statement.circuitId) .statementMismatch

/-- Produces a proof that a payment is authorized under a policy. -/
def authorizePayment (sha256 : Bytes → Digest) (statement : PaymentStatement) (witness : PrivateWitness)
    (policy : Policy) (rng : Rng) : Outcome PaymentError (Proof.NonInteractiveProof × Rng) := do
  checkStatementBinding sha256 statement policy
  AuthorizationRelation.validate sha256 statement witness policy
  let compiled ← compile policy
  let boundCircuit ← bindStatement compiled
  let (secrets, publics) ← buildInputs sha256 compiled policy witness
  let publics := publics ++ bindingValues statement
  let outputs ← referenceOutputs boundCircuit secrets publics
  let circuitId ← boundCircuit.computeId sha256
  let prover ← (Proof.Prover.new sha256 boundCircuit ⟨circuitId, publics, outputs⟩ secrets).mapError
    fun _ => PaymentError.proofGenerationFailed
  (prover.prove sha256 (sha256Backend sha256) authorizationRepetitions rng).mapError fun _ => .proofGenerationFailed

/-- What the result of the generic verifier means for a payment. -/
def proofVerdict : Outcome Proof.ProofError Proof.VerificationResult → Outcome PaymentError Bool
  | .ok .valid => .ok true
  | .ok .invalid => .ok false
  | .error .invalidStatement => .error .statementMismatch
  | .error _ => .error .proofRejected
  | .aborted => .aborted

/-- Verifies a proof against a statement and a policy; the public inputs and the
expected outputs are rebuilt from both. -/
def verifyPaymentAuthorization (sha256 : Bytes → Digest) (statement : PaymentStatement)
    (proof : Proof.NonInteractiveProof) (policy : Policy) : Outcome PaymentError Bool := do
  checkStatementBinding sha256 statement policy
  let compiled ← compile policy
  let boundCircuit ← bindStatement compiled
  let circuitId ← boundCircuit.computeId sha256
  Outcome.reject (proof.statement.circuitId ≠ circuitId) .statementMismatch
  let publics ← boundPublicInputs compiled policy statement
  let fsStatement : Proof.Statement := ⟨circuitId, publics, expectedOutputs compiled statement⟩
  proofVerdict (Proof.verify sha256 (sha256Backend sha256) boundCircuit fsStatement proof)

/-- A statement that carries the version and the ids of its policy. -/
structure PaymentStatement.Names (sha256 : Bytes → Digest) (statement : PaymentStatement) (policy : Policy) : Prop where
  protocolVersion : statement.protocolVersion = Proof.protocolVersion
  policyId : PaymentAuth.policyId sha256 policy = .ok statement.policyId
  circuitId : paymentCircuitId sha256 policy = .ok statement.circuitId

/-- The statement that a proof of a payment is about. -/
def provenStatement (compiled : CompiledPolicy FieldElement) (wiring : Wiring) (statement : PaymentStatement) :
    Proof.Statement :=
  ⟨statement.circuitId, wiring.subformulas.flatMap partPublics ++ bindingValues statement,
    expectedOutputs compiled statement⟩

section Views

private theorem viewWeights_mul_le {F : Type} {nodes : List (Node F)} {a b : NodeId} {budget : ℕ}
    (below : viewWeights nodes ≤ budget) : viewWeights (nodes ++ [.mul a b]) ≤ budget + 265 := by
  rw [viewWeights_concat]
  exact Nat.add_le_add below (viewWeight_mul_le nodes a b)

/-- Binding a statement adds four public inputs and four products. -/
theorem boundCircuit_weight (base : Circuit FieldElement) (root : NodeId) :
    viewWeights (boundCircuit base root).nodes ≤ viewWeights base.nodes + 265 + 265 + 265 + 265 := by
  rw [boundCircuit]
  apply viewWeights_mul_le
  apply viewWeights_mul_le
  apply viewWeights_mul_le
  apply viewWeights_mul_le
  simp only [viewWeights_concat, viewWeight, Nat.add_zero]
  exact Nat.le_refl _

/-- The limits on policies keep every view of a bound circuit encodable. -/
theorem Compiled.bound_sizes {policy : Policy} {compiled : CompiledPolicy FieldElement} {root : NodeId}
    {wiring : Wiring} (correct : Compiled policy compiled root wiring) (party : PartyId) :
    commitmentSize (boundCircuit compiled.circuit root) party < 2 ^ 32 := by
  have valid := boundCircuit_wellFormed correct.wellFormed correct.last_output correct.room
  have size := commitmentSize_le_viewWeights valid party
  have bound := boundCircuit_weight compiled.circuit root
  have policyWeight := correct.viewWeights_le
  rw [maxPolicyNodes] at policyWeight
  omega

end Views

section Acceptance

variable {sha256 : Bytes → Digest} {statement : PaymentStatement} {policy : Policy} {proof : Proof.NonInteractiveProof}
  {compiled : CompiledPolicy FieldElement} {root : NodeId} {wiring : Wiring}

theorem checkStatementBinding_ok_iff {result : Unit} :
    checkStatementBinding sha256 statement policy = .ok result ↔ statement.Names sha256 policy := by
  simp only [checkStatementBinding, Outcome.bind_ok_iff, Outcome.reject_ok_iff, exists_const, not_not,
    Policy.policyId_ok_iff]
  constructor
  · rintro ⟨version, policyId, named, rfl, circuitId, computed, rfl⟩
    exact ⟨version, named, computed⟩
  · intro names
    exact ⟨names.protocolVersion, _, names.policyId, rfl, _, names.circuitId, rfl⟩

theorem proofVerdict_true_iff {call : Outcome Proof.ProofError Proof.VerificationResult} :
    proofVerdict call = .ok true ↔ call = .ok .valid := by
  unfold proofVerdict
  split <;> simp_all

theorem paymentCircuitId_eq (compiles : compile policy = .ok compiled)
    (correct : Compiled policy compiled root wiring) :
    paymentCircuitId sha256 policy = (boundCircuit compiled.circuit root).computeId sha256 := by
  rw [paymentCircuitId, compiles, Outcome.ok_bind, correct.bindStatement_eq, Outcome.ok_bind]

theorem names_of_accepted (accepted : verifyPaymentAuthorization sha256 statement proof policy = .ok true) :
    statement.Names sha256 policy := by
  obtain ⟨_, checked, _⟩ := Outcome.bind_ok_iff.mp accepted
  exact checkStatementBinding_ok_iff.mp checked

/-- A proof is accepted for a statement of the policy that the proof verifies for. -/
theorem verifyPaymentAuthorization_true_iff (compiles : compile policy = .ok compiled)
    (correct : Compiled policy compiled root wiring) :
    verifyPaymentAuthorization sha256 statement proof policy = .ok true ↔
      statement.Names sha256 policy ∧ Proof.Verified sha256 (sha256Backend sha256) (boundCircuit compiled.circuit root)
        (provenStatement compiled wiring statement) proof := by
  simp only [verifyPaymentAuthorization, Outcome.bind_ok_iff, checkStatementBinding_ok_iff, exists_const, compiles,
    correct.bindStatement_eq, correct.boundPublicInputs_eq, Outcome.ok_bind, Outcome.reject_ok_iff, not_not]
  constructor
  · rintro ⟨names, circuitId, computed, same, accepted⟩
    have named := names.circuitId
    rw [paymentCircuitId_eq compiles correct, computed, Outcome.ok.injEq] at named
    subst named
    exact ⟨names, Proof.verify_valid_iff.mp (proofVerdict_true_iff.mp accepted)⟩
  · rintro ⟨names, verified⟩
    have named := names.circuitId
    rw [paymentCircuitId_eq compiles correct] at named
    refine ⟨names, statement.circuitId, named, by rw [verified.sameStatement]; rfl, ?_⟩
    exact proofVerdict_true_iff.mpr (Proof.verify_valid_iff.mpr verified)

/-- The one count that the verifier looks at: there is a repetition. -/
theorem repetitions_ne_nil (accepted : verifyPaymentAuthorization sha256 statement proof policy = .ok true) :
    proof.repetitions ≠ [] := by
  have names := names_of_accepted accepted
  obtain ⟨compiled, compiles, _⟩ := Outcome.bind_ok_iff.mp names.circuitId
  obtain ⟨root, wiring, correct⟩ := compileWithLayout_ok (compile_ok_iff.mp compiles)
  obtain ⟨-, verified⟩ := (verifyPaymentAuthorization_true_iff compiles correct).mp accepted
  exact verified.repetitions_ne_nil

/-- The prover of a payment over given secret inputs. -/
def paymentProver (compiled : CompiledPolicy FieldElement) (root : NodeId) (wiring : Wiring)
    (statement : PaymentStatement) (secrets : List FieldElement) : Proof.Prover :=
  ⟨boundCircuit compiled.circuit root, provenStatement compiled wiring statement, secrets⟩

/-- Secret inputs that evaluate as a verifier expects make an honest prover. -/
theorem paymentProver_honest (compiles : compile policy = .ok compiled) (correct : Compiled policy compiled root wiring)
    (names : statement.Names sha256 policy) {secrets : List FieldElement}
    (accepted : BoundAccepts compiled policy statement secrets) :
    (paymentProver compiled root wiring statement secrets).interactive.Honest sha256 := by
  obtain ⟨bound, publics, binds, inputs, evaluated⟩ := accepted
  rw [correct.bindStatement_eq, Outcome.ok.injEq] at binds
  rw [correct.boundPublicInputs_eq, Outcome.ok.injEq] at inputs
  subst binds inputs
  have valid := boundCircuit_wellFormed correct.wellFormed correct.last_output correct.room
  have named := names.circuitId
  rw [paymentCircuitId_eq compiles correct] at named
  have counted := ((evaluateReference_ok_iff valid).mp evaluated).1
  refine ⟨⟨valid, Circuit.computeId_ok_iff.mpr (Circuit.computeId_ok_iff.mp named), ?_, ?_⟩, counted, evaluated⟩
  · exact ((evaluateReference_ok_iff valid).mp evaluated).2.1
  · simp [paymentProver, Proof.Prover.interactive, provenStatement, Proof.Statement.toMpcith, expectedOutputs,
      boundCircuit, correct.outputs, correct.rangeCheckOutputs]

/-- Every compiled policy has secret inputs that its bound circuit accepts:
commitments are public and the amount inside the circuit is free. -/
theorem Compiled.exists_boundAccepts (correct : Compiled policy compiled root wiring) (statement : PaymentStatement) :
    ∃ secrets, BoundAccepts compiled policy statement secrets := by
  obtain ⟨tree, rfl, chosen⟩ : ∃ tree : ChosenWiring, tree.wiring = wiring ∧ tree.eval Prod.snd = true := by
    refine ⟨wiring.map (fun leaf => (leaf, true)) id, (Formula.map_map _ _ _ _ wiring).trans wiring.map_self, ?_⟩
    rw [Formula.eval_map]
    exact Formula.eval_true correct.disjunction_nonempty fun _ _ _ inside => (correct.threshold_bounds inside).2.1
  exact ⟨_, correct.boundAccepts_choice (Or.inl chosen)⟩

/-- A statement that carries the ids of its policy has accepted proofs of every
positive number of repetitions. -/
theorem exists_accepted (names : statement.Names sha256 policy) {count : UInt32} (positive : count ≠ 0) :
    ∃ proof, verifyPaymentAuthorization sha256 statement proof policy = .ok true ∧
      proof.repetitions.length = count.toNat := by
  obtain ⟨compiled, compiles, _⟩ := Outcome.bind_ok_iff.mp names.circuitId
  obtain ⟨root, wiring, correct⟩ := compileWithLayout_ok (compile_ok_iff.mp compiles)
  obtain ⟨secrets, accepted⟩ := correct.exists_boundAccepts statement
  have honest := paymentProver_honest compiles correct names accepted
  have sizes := correct.bound_sizes
  have rng : Rng := ⟨⟨fun _ => 0, fun _ => ⟨List.replicate randomnessLen 0, List.length_replicate⟩⟩, 0, 0⟩
  obtain ⟨proof, _, proved⟩ := @Proof.Prover.exists_prove sha256 _ count rng honest sizes positive
  obtain ⟨verified, length⟩ := Proof.Prover.prove_verified honest proved
  exact ⟨proof, (verifyPaymentAuthorization_true_iff compiles correct).mpr ⟨names, verified⟩, length⟩

/-- A policy whose normal form is valid has both ids. -/
theorem exists_ids (valid : policy.normalizeNode.validate = .ok ()) :
    ∃ policyId circuitId, PaymentAuth.policyId sha256 policy = .ok policyId ∧
      paymentCircuitId sha256 policy = .ok circuitId := by
  obtain ⟨compiled, compiles⟩ := compileWithLayout_succeeds valid
  obtain ⟨root, wiring, correct⟩ := compileWithLayout_ok compiles
  have small := Policy.encodeNode_length_le policy.normalizeNode
  have nodes := (Policy.valid_of_validate valid).nodes
  have fits : policy.normalizeNode.encode.length ≤ maxEncodedSize := by
    rw [Policy.encode, List.length_cons]
    simp only [maxPolicyNodes, maxEncodedSize] at *
    omega
  have computed := @Circuit.computeId_total _ PaymentError sha256 _ correct.bound_lt.1 correct.bound_lt.2
  rw [← paymentCircuitId_eq (compile_ok_iff.mpr compiles) correct] at computed
  exact ⟨_, _, policyId_ok_iff.mpr ⟨fits, rfl⟩, computed⟩

/-- Every payment can be stated for a policy whose normal form is valid. -/
theorem exists_names (valid : policy.normalizeNode.validate = .ok ()) (amount : UInt64) : ∃ policyId circuitId,
    PaymentStatement.Names sha256 { filledStatement amount with policyId := policyId, circuitId := circuitId } policy := by
  obtain ⟨policyId, circuitId, named, computed⟩ := @exists_ids sha256 _ valid
  exact ⟨policyId, circuitId, rfl, named, computed⟩

end Acceptance

section Statements

variable {sha256 : Bytes → Digest} {first second : PaymentStatement} {policy : Policy}
  {proof : Proof.NonInteractiveProof}

/-- Statements that differ at most in digests that are congruent modulo the field order. -/
structure PaymentStatement.Congruent (first second : PaymentStatement) : Prop where
  amount : first.amount = second.amount
  recipientCommitment :
    (digestToField first.recipientCommitment : FieldElement) = digestToField second.recipientCommitment
  paymentId : (digestToField first.paymentId : FieldElement) = digestToField second.paymentId
  nonce : (digestToField first.nonce : FieldElement) = digestToField second.nonce
  policyId : first.policyId = second.policyId
  circuitId : first.circuitId = second.circuitId
  protocolVersion : first.protocolVersion = second.protocolVersion

/-- The amount is bound as it is, the digests modulo the field order. -/
theorem bindingValues_eq_iff : bindingValues first = bindingValues second ↔
    first.amount = second.amount ∧
      (digestToField first.recipientCommitment : FieldElement) = digestToField second.recipientCommitment ∧
      (digestToField first.nonce : FieldElement) = digestToField second.nonce ∧
      (digestToField first.paymentId : FieldElement) = digestToField second.paymentId := by
  have order : UInt64.size < fieldOrder := by decide +kernel
  have amounts : (first.amount.value.toNat : FieldElement) = second.amount.value.toNat ↔
      first.amount = second.amount := by
    constructor
    · intro same
      rw [ZMod.natCast_eq_natCast_iff] at same
      have value := Nat.ModEq.eq_of_lt_of_lt same (first.amount.value.toNat_lt.trans order)
        (second.amount.value.toNat_lt.trans order)
      exact Amount.ext_value (UInt64.toNat_inj.mp value)
    · rintro same
      rw [same]
  simp only [bindingValues, List.cons.injEq, and_true, amounts]

/-- A statement is accepted with a proof of another exactly when the two are congruent. -/
theorem verifyPaymentAuthorization_iff_congruent
    (accepted : verifyPaymentAuthorization sha256 first proof policy = .ok true) :
    verifyPaymentAuthorization sha256 second proof policy = .ok true ↔ first.Congruent second := by
  have names := names_of_accepted accepted
  obtain ⟨compiled, compiles, _⟩ := Outcome.bind_ok_iff.mp names.circuitId
  obtain ⟨root, wiring, correct⟩ := compileWithLayout_ok (compile_ok_iff.mp compiles)
  rw [verifyPaymentAuthorization_true_iff compiles correct] at accepted ⊢
  obtain ⟨-, verified⟩ := accepted
  constructor
  · rintro ⟨names', verified'⟩
    have proven : provenStatement compiled wiring first = provenStatement compiled wiring second :=
      verified.sameStatement.symm.trans verified'.sameStatement
    obtain ⟨circuits, publics, -⟩ := Proof.Statement.mk.inj proven
    obtain ⟨amounts, recipients, nonces, ids⟩ := bindingValues_eq_iff.mp (List.append_cancel_left publics)
    exact {
      amount := amounts
      recipientCommitment := recipients
      paymentId := ids
      nonce := nonces
      policyId := Outcome.ok.inj (names.policyId.symm.trans names'.policyId)
      circuitId := circuits
      protocolVersion := names.protocolVersion.trans names'.protocolVersion.symm }
  · intro congruent
    have bindings : bindingValues first = bindingValues second := bindingValues_eq_iff.mpr
      ⟨congruent.amount, congruent.recipientCommitment, congruent.nonce, congruent.paymentId⟩
    have proven : provenStatement compiled wiring first = provenStatement compiled wiring second := by
      rw [provenStatement, provenStatement, expectedOutputs, expectedOutputs, bindingProduct, bindingProduct, bindings,
        congruent.circuitId]
    refine ⟨⟨?_, ?_, ?_⟩, proven ▸ verified⟩
    · rw [← congruent.protocolVersion, names.protocolVersion]
    · rw [← congruent.policyId, names.policyId]
    · rw [← congruent.circuitId, names.circuitId]

/-- A proof that is accepted for a statement is accepted for no other one exactly
when no other one is congruent to it. -/
theorem verifyPaymentAuthorization_unique_iff
    (accepted : verifyPaymentAuthorization sha256 first proof policy = .ok true) :
    (verifyPaymentAuthorization sha256 second proof policy = .ok true → first = second) ↔
      (first.Congruent second → first = second) := by
  rw [verifyPaymentAuthorization_iff_congruent accepted]

/-- A proof of a payment of five is accepted for no payment with another nonce. -/
theorem verifyPaymentAuthorization_unique_iff_nonce :
    ∃ statement proof, statement.amount = ⟨5, .cents⟩ ∧
      verifyPaymentAuthorization PaymentAuth.sha256 statement proof (.credential (.filled 4)) = .ok true ∧
      verifyPaymentAuthorization PaymentAuth.sha256 { statement with nonce := (CredentialId.filled 7).toDigest } proof
        (.credential (.filled 4)) ≠ .ok true := by
  obtain ⟨policyId, circuitId, names⟩ := @exists_names PaymentAuth.sha256 (.credential (.filled 4)) (by decide) 5
  obtain ⟨proof, accepted, -⟩ := @exists_accepted _ _ _ names 1 (by decide)
  refine ⟨_, proof, rfl, accepted, fun accepted' => ?_⟩
  have equal := (verifyPaymentAuthorization_unique_iff accepted).mpr (fun congruent => ?_) accepted'
  · have different : (filledStatement 5).nonce ≠ (CredentialId.filled 7).toDigest := by decide
    exact different (congrArg PaymentStatement.nonce equal)
  · have same := congruent.nonce
    simp only [digestToField, ZMod.natCast_eq_natCast_iff, Nat.ModEq] at same
    exact absurd same (by decide +kernel)

/-- The recipient whose commitment is that of the statement plus the field order. -/
def shiftedRecipient : Digest where
  bytes := (toBeBytes 32 (fromLeBytes (filledStatement 5).recipientCommitment.bytes + fieldOrder)).reverse
  size := by simp [digestLen]

/-- A proof of a payment of five is accepted for a payment to another recipient. -/
theorem verifyPaymentAuthorization_not_unique :
    ∃ statement proof, statement.recipientCommitment ≠ shiftedRecipient ∧
      verifyPaymentAuthorization PaymentAuth.sha256 statement proof (.credential (.filled 4)) = .ok true ∧
      verifyPaymentAuthorization PaymentAuth.sha256 { statement with recipientCommitment := shiftedRecipient } proof
        (.credential (.filled 4)) = .ok true := by
  obtain ⟨policyId, circuitId, names⟩ := @exists_names PaymentAuth.sha256 (.credential (.filled 4)) (by decide) 5
  obtain ⟨proof, accepted, -⟩ := @exists_accepted _ _ _ names 1 (by decide)
  have different : (filledStatement 5).recipientCommitment ≠ shiftedRecipient := by decide +kernel
  refine ⟨_, proof, ?_, accepted, (verifyPaymentAuthorization_iff_congruent accepted).mpr ?_⟩
  · exact different
  refine ⟨rfl, ?_, rfl, rfl, rfl, rfl, rfl⟩
  simp only [digestToField, ZMod.natCast_eq_natCast_iff, Nat.ModEq]
  decide +kernel

end Statements

end PaymentAuth
