import PaymentAuth.Policy.Agreement

/-! Where the circuit side of a policy departs from its evaluator: on digests that
agree in the field, and on witnesses without an amount. -/

namespace PaymentAuth

open Library

section Credentials

/-- Another digest with the same field image. -/
def Digest.congruent (digest : Digest) : Digest where
  bytes := (toBeBytes digestLen (
    if fromLeBytes digest.bytes + fieldOrder < 256 ^ digestLen then fromLeBytes digest.bytes + fieldOrder
    else fromLeBytes digest.bytes - fieldOrder)).reverse
  size := by simp

private theorem fromLeBytes_congruent (digest : Digest) :
    (fromLeBytes digest.congruent.bytes = fromLeBytes digest.bytes + fieldOrder) ∨
      fromLeBytes digest.bytes = fromLeBytes digest.congruent.bytes + fieldOrder ∧
        fromLeBytes digest.congruent.bytes ≠ 0 := by
  have bound : fromLeBytes digest.bytes < 256 ^ digestLen := by
    have below := fromBeBytes_lt digest.bytes.reverse
    rwa [List.length_reverse, digest.size] at below
  have room : 2 * fieldOrder < 256 ^ digestLen := by decide +kernel
  rw [Digest.congruent, fromLeBytes, List.reverse_reverse]
  by_cases fits : fromLeBytes digest.bytes + fieldOrder < 256 ^ digestLen
  · rw [if_pos fits]
    exact Or.inl (fromBeBytes_toBeBytes_of_lt fits)
  · rw [if_neg fits, fromBeBytes_toBeBytes_of_lt (by omega)]
    exact Or.inr ⟨by omega, by omega⟩

theorem digestToField_congruent (digest : Digest) :
    (digestToField digest.congruent : FieldElement) = digestToField digest := by
  rw [digestToField, digestToField]
  rcases fromLeBytes_congruent digest with above | ⟨below, -⟩
  · rw [above, Nat.cast_add, ZMod.natCast_self, add_zero]
  · rw [below, Nat.cast_add, ZMod.natCast_self, add_zero]

theorem Digest.congruent_ne (digest : Digest) : digest.congruent ≠ digest := by
  have positive : 0 < fieldOrder := by decide +kernel
  intro same
  rcases fromLeBytes_congruent digest with above | ⟨below, -⟩
  · rw [same] at above
    omega
  · rw [same] at below
    omega

section Leaves

variable {sha256 : Bytes → Digest} {policy : Policy} {compiled : CompiledPolicy FieldElement} {root : NodeId}
  {wiring : Wiring} {witness : PolicyWitness} {secrets publics values : List FieldElement}

/-- On the inputs built for a covered policy a leaf wire tells whether the leaf is matched. -/
theorem Compiled.leafWire_eq (correct : Compiled policy compiled root wiring) (covered : witness.Covers policy)
    (built : compiled.buildInputs sha256 policy witness = .ok (secrets, publics))
    (evaluated : evalAllNodes compiled.circuit secrets publics = .ok values) {leaf : LeafWiring}
    (inside : .leaf leaf ∈ wiring.subformulas) :
    inputAt values leaf.wire.asUsize = Formula.bit (Policy.leafMatched sha256 witness leaf.leaf) := by
  obtain ⟨secrets', publics', values', built', prepared, -⟩ := correct.buildInputs_ok sha256 covered
  cases built.symm.trans built'
  cases evaluated.symm.trans prepared.evaluated
  exact prepared.leaf_value correct covered inside

/-- A credential wire is one exactly when the secret opens the id, and exactly when
the evaluator marks the leaf satisfied, unless commitment and id are different
digests with one field image. -/
theorem Compiled.credentialWire_faithful_iff (correct : Compiled policy compiled root wiring)
    (_ : compileWithLayout policy = .ok compiled) (covered : witness.Covers policy)
    (built : compiled.buildInputs sha256 policy witness = .ok (secrets, publics))
    (evaluated : evalAllNodes compiled.circuit secrets publics = .ok values) {id : CredentialId}
    {secretNode commitmentNode wire : NodeId} {secret : Bytes}
    (inside : .leaf (.credential id secretNode commitmentNode wire) ∈ wiring.subformulas)
    (found : witness.secretFor id = some secret) :
    ((inputAt values wire.asUsize = 1 ↔ credentialCommitment sha256 secret = id.toDigest) ∧
        (inputAt values wire.asUsize = 1 ↔
          ((Policy.credential id).evalNode sha256 witness).isSatisfied = true)) ↔
      ((digestToField (credentialCommitment sha256 secret) : FieldElement) = digestToField id.toDigest →
        credentialCommitment sha256 secret = id.toDigest) := by
  have carried := correct.leafWire_eq covered built evaluated inside
  have one : inputAt values wire.asUsize = 1 ↔
      (digestToField (credentialCommitment sha256 secret) : FieldElement) = digestToField id.toDigest := by
    rw [show inputAt values wire.asUsize = _ from carried, Formula.bit_eq_one_iff, LeafWiring.leaf, Policy.leafMatched,
      found, Option.any_some, decide_eq_true_eq]
  have marked : ((Policy.credential id).evalNode sha256 witness).isSatisfied = true ↔
      credentialCommitment sha256 secret = id.toDigest := by
    rw [Policy.evalNode_isSatisfied, Policy.formula_credential, Formula.eval_leaf, Policy.leafSatisfied, found,
      Option.any_some, beq_iff_eq]
  rw [one, marked, and_self]
  constructor
  · exact fun same => same.mp
  · exact fun apart => ⟨apart, congrArg digestToField⟩

/-- The wire of a credential that the secret opens. -/
theorem Compiled.credentialWire_faithful_iff_opened :
    ∃ (compiled : CompiledPolicy FieldElement) (values : List FieldElement) (wire : NodeId),
      compileWithLayout (.credential (credentialOf [7])) = .ok compiled ∧
        (inputAt values wire.asUsize = 1 ↔
          credentialCommitment PaymentAuth.sha256 [7] = (credentialOf [7]).toDigest) ∧
        (inputAt values wire.asUsize = 1 ↔ ((Policy.credential (credentialOf [7])).evalNode PaymentAuth.sha256
          ⟨[(credentialOf [7], [7])], none⟩).isSatisfied = true) := by
  obtain ⟨compiled, compiles⟩ := @compileWithLayout_succeeds (.credential (credentialOf [7])) (by decide +kernel)
  obtain ⟨root, wiring, correct⟩ := compileWithLayout_ok compiles
  have found : PolicyWitness.secretFor ⟨[(credentialOf [7], [7])], none⟩ (credentialOf [7]) = some [7] := by
    simp [PolicyWitness.secretFor]
  have covered : PolicyWitness.Covers ⟨[(credentialOf [7], [7])], none⟩ (.credential (credentialOf [7])) := by
    intro id listed
    obtain rfl : id = credentialOf [7] := by simpa [Formula.leaves] using listed
    exact ⟨[7], found⟩
  obtain ⟨secrets, publics, values, built, prepared, -⟩ := correct.buildInputs_ok PaymentAuth.sha256 covered
  obtain ⟨secretNode, commitmentNode, wire, rfl⟩ := correct.credential_wiring
  exact ⟨compiled, values, wire, compiles, (correct.credentialWire_faithful_iff compiles covered built
    prepared.evaluated (List.mem_singleton_self _) found).mpr fun _ => rfl⟩

/-- An id that the secret of one byte does not open, although the two agree in the field. -/
def unopenedId : CredentialId := .ofDigest (credentialCommitment PaymentAuth.sha256 [7]).congruent

theorem unopenedId_valid : (Policy.credential unopenedId).validate = .ok () := by
  have nonzero : unopenedId.isZero = false := by
    have value : fromLeBytes unopenedId.bytes ≠ 0 := by
      have positive : 0 < fieldOrder := by decide +kernel
      rcases fromLeBytes_congruent (credentialCommitment PaymentAuth.sha256 [7]) with above | ⟨-, below⟩
      · rw [unopenedId, CredentialId.ofDigest, above]
        omega
      · exact below
    rw [CredentialId.isZero, beq_eq_false_iff_ne]
    intro zero
    rw [zero] at value
    exact value rfl
  refine Policy.validate_ok_iff.mpr ⟨Nat.zero_le _, ?_, List.countP_le_length.trans ?_, fun node inside => ?_⟩
  · decide
  · decide
  · obtain rfl := List.mem_singleton.mp inside
    exact ⟨nonzero, trivial⟩

/-- A credential is authorized inside the circuit by a secret that does not open it. -/
theorem credentialWire_not_faithful :
    ∃ compiled : CompiledPolicy FieldElement, compileWithLayout (.credential unopenedId) = .ok compiled ∧
      compiled.referenceEvaluate PaymentAuth.sha256 (.credential unopenedId) ⟨[(unopenedId, [7])], none⟩ = .ok true ∧
      ((Policy.credential unopenedId).evalNode PaymentAuth.sha256 ⟨[(unopenedId, [7])], none⟩).isSatisfied = false ∧
      credentialCommitment PaymentAuth.sha256 [7] ≠ unopenedId.toDigest := by
  have unopened : credentialCommitment PaymentAuth.sha256 [7] ≠ unopenedId.toDigest := Ne.symm (Digest.congruent_ne _)
  have found : PolicyWitness.secretFor ⟨[(unopenedId, [7])], none⟩ unopenedId = some [7] := by
    simp [PolicyWitness.secretFor]
  have covered : PolicyWitness.Covers ⟨[(unopenedId, [7])], none⟩ (.credential unopenedId) := by
    intro id listed
    obtain rfl : id = unopenedId := by simpa [Formula.leaves] using listed
    exact ⟨[7], found⟩
  obtain ⟨compiled, compiles⟩ := @compileWithLayout_succeeds (.credential unopenedId) unopenedId_valid
  refine ⟨compiled, compiles, ?_, ?_, unopened⟩
  · rw [CompiledPolicy.referenceEvaluate_eq compiles covered, Policy.formula_credential, Formula.eval_leaf,
      Policy.leafMatched, found, Option.any_some]
    exact congrArg Outcome.ok (decide_eq_true (digestToField_congruent _).symm)
  · rw [Policy.evalNode_isSatisfied, Policy.formula_credential, Formula.eval_leaf, Policy.leafSatisfied, found,
      Option.any_some, beq_eq_false_iff_ne]
    exact unopened

end Leaves

end Credentials

section Shapes

variable {sha256 : Bytes → Digest} {policy : Policy} {compiled : CompiledPolicy FieldElement} {witness : PolicyWitness}

/-- A credential without a secret stops the filling of inputs. -/
theorem fillParts_error {p : ℕ} {nodes : List (Formula PolicyLeaf Unit)} {id : CredentialId}
    (listed : .leaf (.credential id) ∈ nodes) (missing : witness.secretFor id = none)
    (init : FilledInputs (ZMod p)) : forM nodes (fillPart sha256 witness) init = .error .witnessMismatch := by
  induction nodes generalizing init with
  | nil => cases listed
  | cons node rest ih =>
    have run : forM (node :: rest) (fillPart sha256 witness) init =
        (fillPart sha256 witness node init >>= fun pair => forM rest (fillPart sha256 witness) pair.2) := rfl
    have later (next : FilledInputs (ZMod p)) (kept : .leaf (.credential id) ∈ rest)
        (filled : fillPart sha256 witness node init = .ok ((), next)) :
        forM (node :: rest) (fillPart sha256 witness) init = .error .witnessMismatch := by
      rw [run, filled, Outcome.ok_bind]
      exact ih kept next
    rcases List.mem_cons.mp listed with rfl | kept
    · rw [run]
      have stopped : fillPart sha256 witness (.leaf (.credential id)) init = .error .witnessMismatch := by
        rw [fillPart, fillCredential, missing]
        rfl
      rw [stopped, Outcome.error_bind]
    · cases node with
      | leaf leaf =>
        cases leaf with
        | amountAtMost limit => exact later _ kept rfl
        | credential id' =>
          cases found : witness.secretFor id' with
          | some secret =>
            obtain ⟨next, filled⟩ : ∃ next, fillPart sha256 witness (.leaf (.credential id')) init = .ok ((), next) := by
              rw [fillPart, fillCredential, found]
              exact ⟨_, rfl⟩
            exact later next kept filled
          | none =>
            rw [run, fillPart, fillCredential, found]
            rfl
      | atLeast k label members => exact later _ kept rfl
      | all members => exact later _ kept rfl
      | any members => exact later _ kept rfl

/-- Reference evaluation reports a mismatch exactly when a credential has no secret. -/
theorem CompiledPolicy.referenceEvaluate_error_iff (compiles : compileWithLayout policy = .ok compiled) :
    compiled.referenceEvaluate sha256 policy witness = .error .witnessMismatch ↔ ¬witness.Covers policy := by
  constructor
  · intro mismatch covered
    rw [referenceEvaluate_eq compiles covered] at mismatch
    cases mismatch
  · intro uncovered
    obtain ⟨root, wiring, correct⟩ := compileWithLayout_ok compiles
    simp only [PolicyWitness.Covers, not_forall, not_exists] at uncovered
    obtain ⟨id, listed, missing⟩ := uncovered
    have absent : witness.secretFor id = none := Option.eq_none_iff_forall_ne_some.mpr missing
    have normal : .leaf (.credential id) ∈ policy.normalizeNode.formula.subformulas :=
      Formula.mem_leaves.mp ((correct.equivalent.leaves _).mp listed)
    rw [referenceEvaluate, buildInputs, Policy.normalize, Outcome.ok_bind, fill_eq_forM,
      fillParts_error normal absent, Outcome.error_bind, Outcome.error_bind]

/-- The evaluator reports a mismatch exactly when the witness does not match the policy. -/
theorem Policy.evaluate_error_iff :
    policy.evaluate sha256 witness = .error .witnessMismatch ↔ witness.validateAgainst policy ≠ .ok () := by
  have cases : witness.validateAgainst policy = .ok () ∨ witness.validateAgainst policy = .error .witnessMismatch := by
    unfold PolicyWitness.validateAgainst
    obtain ⟨ids, needsAmount⟩ := policy.collectRequirements
    dsimp only
    rcases @Outcome.forM_cases PolicyError CredentialId
      (fun id => Outcome.reject ((witness.credentialSecrets.any fun entry => entry.1 == id) = false) .witnessMismatch)
      .witnessMismatch (fun _ => Outcome.reject_cases _ _) ids with passed | failed
    · rw [passed, Outcome.ok_bind]
      exact Outcome.reject_cases _ _
    · rw [failed]
      exact Or.inr rfl
  rw [evaluate]
  rcases cases with passed | failed
  · simp [passed]
  · simp [failed]

/-- Circuit side and evaluator report the same witnesses as mismatched, and no
missing amount is authorized, exactly when an amount is given, no cap needs one, or
a credential has no secret. -/
theorem CompiledPolicy.witnessMismatch_agrees_iff (compiles : compileWithLayout policy = .ok compiled) :
    ((compiled.referenceEvaluate sha256 policy witness = .error .witnessMismatch ↔
          policy.evaluate sha256 witness = .error .witnessMismatch) ∧
        (witness.amount = none → (∃ limit, .amountAtMost limit ∈ policy.formula.leaves) →
          compiled.referenceEvaluate sha256 policy witness ≠ .ok true)) ↔
      (witness.amount = none → (∃ limit, .amountAtMost limit ∈ policy.formula.leaves) → ¬witness.Covers policy) := by
  have matched : witness.validateAgainst policy = .ok () ↔ witness.Covers policy ∧
      ∀ limit, .amountAtMost limit ∈ policy.formula.leaves → ∃ amount, witness.amount = some amount :=
    PolicyWitness.validateAgainst_ok_iff
  rw [referenceEvaluate_error_iff compiles, Policy.evaluate_error_iff, ne_eq, matched]
  constructor
  · rintro ⟨same, -⟩ absent ⟨limit, capped⟩
    refine same.mpr fun both => ?_
    obtain ⟨amount, given⟩ := both.2 limit capped
    rw [absent] at given
    cases given
  · intro exposed
    refine ⟨⟨fun uncovered both => uncovered both.1, fun unmatched covered => unmatched ⟨covered, ?_⟩⟩, ?_⟩
    · intro limit capped
      cases given : witness.amount with
      | some amount => exact ⟨amount, rfl⟩
      | none => exact absurd covered (exposed given ⟨limit, capped⟩)
    · intro absent capped authorized
      have mismatch := (@referenceEvaluate_error_iff sha256 _ _ _ compiles).mpr (exposed absent capped)
      rw [authorized] at mismatch
      cases mismatch

/-- Neither a secret nor an amount for an alternative of both. -/
theorem CompiledPolicy.witnessMismatch_agrees_iff_alternative :
    ∃ compiled : CompiledPolicy FieldElement,
      compileWithLayout (.or [.amountAtMost ⟨5⟩, .credential (.filled 1)]) = .ok compiled ∧
        compiled.referenceEvaluate PaymentAuth.sha256 (.or [.amountAtMost ⟨5⟩, .credential (.filled 1)]) ⟨[], none⟩ =
          .error .witnessMismatch := by
  obtain ⟨compiled, compiles⟩ :=
    @compileWithLayout_succeeds (.or [.amountAtMost ⟨5⟩, .credential (.filled 1)]) (by decide)
  obtain ⟨same, -⟩ := (@witnessMismatch_agrees_iff PaymentAuth.sha256 _ _ ⟨[], none⟩ compiles).mpr fun _ _ covered => by
    obtain ⟨secret, found⟩ := covered (.filled 1) (by simp [Formula.leaves])
    cases found
  exact ⟨compiled, compiles, same.mpr rfl⟩

/-- A cap is authorized inside the circuit without an amount. -/
theorem CompiledPolicy.witnessMismatch_disagrees :
    ∃ compiled : CompiledPolicy FieldElement, compileWithLayout (.amountAtMost ⟨5⟩) = .ok compiled ∧
      compiled.referenceEvaluate PaymentAuth.sha256 (.amountAtMost ⟨5⟩) ⟨[], none⟩ = .ok true ∧
      (Policy.amountAtMost ⟨5⟩).evaluate PaymentAuth.sha256 ⟨[], none⟩ = .error .witnessMismatch := by
  obtain ⟨compiled, compiles⟩ := @compileWithLayout_succeeds (.amountAtMost ⟨5⟩) (by decide)
  have covered : PolicyWitness.Covers ⟨[], none⟩ (.amountAtMost ⟨5⟩) := by
    intro id listed
    simp [Formula.leaves] at listed
  exact ⟨compiled, compiles, referenceEvaluate_eq compiles covered, rfl⟩

end Shapes

end PaymentAuth
