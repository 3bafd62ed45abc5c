import PaymentAuth.Payment.Binding
import PaymentAuth.Payment.PublicInputs
import PaymentAuth.Policy.Realization

/-! What a bound circuit proves about the policy it was compiled from. -/

namespace PaymentAuth

open Library

/-- The bound circuit produces what a verifier of the statement expects. -/
def BoundAccepts (compiled : CompiledPolicy FieldElement) (policy : Policy) (statement : PaymentStatement)
    (secrets : List FieldElement) : Prop :=
  ∃ bound publics, bindStatement compiled = .ok bound ∧ boundPublicInputs compiled policy statement = .ok publics ∧
    evaluateReference bound secrets publics = .ok (expectedOutputs compiled statement)

/-- The compiled policy itself has zero constraints and a root of one. -/
def PolicyAccepts (compiled : CompiledPolicy FieldElement) (policy : Policy) (secrets : List FieldElement) : Prop :=
  ∃ publics, policyPublicInputs compiled policy = .ok publics ∧
    evaluateReference compiled.circuit secrets publics = .ok (List.replicate compiled.rangeCheckOutputs 0 ++ [1])

namespace Compiled

variable {policy : Policy} {compiled : CompiledPolicy FieldElement} {root : NodeId} {wiring : Wiring}
  {statement : PaymentStatement} {secrets publics : List FieldElement}

theorem last_output (correct : Compiled policy compiled root wiring) :
    compiled.circuit.outputs.getLast? = some root := by
  rw [correct.outputs, List.getLast?_concat]

theorem room (correct : Compiled policy compiled root wiring) : compiled.circuit.nodes.length + 8 ≤ 2 ^ 32 := by
  have small := correct.nodes_lt
  omega

theorem outputs_le (correct : Compiled policy compiled root wiring) :
    compiled.circuit.outputs.length ≤ maxPolicyNodes + 1 := by
  have parts := correct.valid.nodes
  rw [← correct.formula, Formula.subformulas_map, List.length_map] at parts
  rw [correct.outputs, List.length_append, List.length_singleton, wiring.constraints_eq, List.length_map]
  exact Nat.add_le_add_right ((List.length_filterMap_le _ _).trans parts) 1

/-- The bound circuit fits the count fields of its encoding. -/
theorem bound_lt (correct : Compiled policy compiled root wiring) :
    (boundCircuit compiled.circuit root).nodes.length < 2 ^ 32 ∧
      (boundCircuit compiled.circuit root).outputs.length < 2 ^ 32 := by
  have nodes := correct.nodes_lt
  have outputs := correct.outputs_le
  constructor
  · rw [boundCircuit_length]
    omega
  · simp only [boundCircuit, List.length_append, List.length_dropLast, List.length_singleton]
    simp only [maxPolicyNodes] at outputs
    omega

/-- Binding a compiled policy succeeds. -/
theorem bindStatement_eq (correct : Compiled policy compiled root wiring) :
    bindStatement compiled = .ok (boundCircuit compiled.circuit root) :=
  bindStatement_ok_iff.mpr ⟨root, correct.last_output,
    boundCircuit_wellFormed correct.wellFormed correct.last_output correct.room, rfl⟩

theorem boundPublicInputs_eq (correct : Compiled policy compiled root wiring) (statement : PaymentStatement) :
    boundPublicInputs compiled policy statement =
      .ok (wiring.subformulas.flatMap partPublics ++ bindingValues statement) := by
  rw [boundPublicInputs, correct.policyPublicInputs_eq, Outcome.ok_bind]

theorem partPublics_count (correct : Compiled policy compiled root wiring) :
    (wiring.subformulas.flatMap partPublics : List FieldElement).length = compiled.circuit.numPublicInputs := by
  rw [correct.publicCount, wiring.publicNodes_eq, List.length_flatMap, List.length_flatMap,
    List.map_congr_left fun part _ => partPublics_length part]

/-- A run's outputs are zero constraints and a given root. -/
theorem outputs_eq_iff (correct : Compiled policy compiled root wiring) {value : ℕ → FieldElement}
    {last : FieldElement} :
    compiled.circuit.outputs.map (fun id => value id.asUsize) =
        List.replicate compiled.rangeCheckOutputs 0 ++ [last] ↔
      (∀ id ∈ wiring.layout.constraints, value id.asUsize = 0) ∧ value root.asUsize = last := by
  rw [correct.outputs, correct.rangeCheckOutputs, List.map_append, List.map_singleton]
  constructor
  · intro same
    obtain ⟨zeros, one⟩ := List.append_inj same (by simp)
    exact ⟨fun id member => List.eq_of_mem_replicate (zeros ▸ List.mem_map_of_mem member), List.singleton_inj.mp one⟩
  · rintro ⟨zeros, rfl⟩
    congr 1
    exact List.eq_replicate_iff.mpr ⟨by simp, by simpa using zeros⟩

theorem policyAccepts_iff (correct : Compiled policy compiled root wiring) :
    PolicyAccepts compiled policy secrets ↔
      ∃ value, compiled.circuit.Runs secrets (wiring.subformulas.flatMap partPublics) value ∧
        (∀ id ∈ wiring.layout.constraints, value id.asUsize = 0) ∧ value root.asUsize = 1 := by
  simp only [PolicyAccepts, correct.policyPublicInputs_eq, Outcome.ok.injEq, exists_eq_left',
    Circuit.evaluateReference_iff_runs correct.wellFormed, eq_comm (a := List.replicate _ _ ++ _),
    correct.outputs_eq_iff]

/-- The values of a statement multiply the root. -/
theorem bound_evaluates (correct : Compiled policy compiled root wiring) {outputs : List FieldElement} :
    evaluateReference (boundCircuit compiled.circuit root) secrets
        (wiring.subformulas.flatMap partPublics ++ bindingValues statement) = .ok outputs ↔
      ∃ constraints r,
        evaluateReference compiled.circuit secrets (wiring.subformulas.flatMap partPublics) =
            .ok (constraints ++ [r]) ∧
          outputs = constraints ++ [r * bindingProduct statement] := by
  have product : bindingProduct statement = (statement.amount.value.toNat : FieldElement) *
      digestToField statement.recipientCommitment * digestToField statement.nonce *
      digestToField statement.paymentId := by
    simp [bindingProduct, bindingValues]
  rw [product]
  exact boundCircuit_evaluates correct.wellFormed correct.last_output correct.room correct.partPublics_count

/-- The bound circuit accepts when the constraints vanish and the root is one up to the binding product. -/
theorem boundAccepts_iff (correct : Compiled policy compiled root wiring) :
    BoundAccepts compiled policy statement secrets ↔
      ∃ value, compiled.circuit.Runs secrets (wiring.subformulas.flatMap partPublics) value ∧
        (∀ id ∈ wiring.layout.constraints, value id.asUsize = 0) ∧
        value root.asUsize * bindingProduct statement = bindingProduct statement := by
  constructor
  · rintro ⟨bound, publics, binds, inputs, evaluated⟩
    rw [correct.bindStatement_eq, Outcome.ok.injEq] at binds
    rw [correct.boundPublicInputs_eq, Outcome.ok.injEq] at inputs
    subst binds inputs
    obtain ⟨constraints, r, evaluated, same⟩ := correct.bound_evaluates.mp evaluated
    obtain ⟨zeros, last⟩ := List.append_inj' same rfl
    obtain ⟨value, runs, outputs⟩ := (Circuit.evaluateReference_iff_runs correct.wellFormed).mp evaluated
    rw [← zeros, eq_comm, correct.outputs_eq_iff] at outputs
    refine ⟨value, runs, outputs.1, ?_⟩
    rw [outputs.2]
    exact (List.singleton_inj.mp last).symm
  · rintro ⟨value, runs, zeros, same⟩
    refine ⟨_, _, correct.bindStatement_eq, correct.boundPublicInputs_eq statement,
      correct.bound_evaluates.mpr ⟨List.replicate compiled.rangeCheckOutputs 0, value root.asUsize, ?_, ?_⟩⟩
    · refine (Circuit.evaluateReference_iff_runs correct.wellFormed).mpr ⟨value, runs, ?_⟩
      exact (correct.outputs_eq_iff.mpr ⟨zeros, rfl⟩).symm
    · rw [expectedOutputs, same]

/-- Acceptance does not depend on which run of the inputs is read. -/
theorem BoundAccepts.of_runs (correct : Compiled policy compiled root wiring) {value : ℕ → FieldElement}
    (accepted : BoundAccepts compiled policy statement secrets)
    (runs : compiled.circuit.Runs secrets (wiring.subformulas.flatMap partPublics) value) :
    (∀ id ∈ wiring.layout.constraints, value id.asUsize = 0) ∧
      value root.asUsize * bindingProduct statement = bindingProduct statement := by
  obtain ⟨value', runs', zeros, same⟩ := correct.boundAccepts_iff.mp accepted
  have outputs (id : NodeId) (inside : id ∈ compiled.circuit.outputs) : value id.asUsize = value' id.asUsize :=
    runs.unique correct.wellFormed runs' (correct.wellFormed.outputs id inside)
  rw [correct.outputs] at outputs
  refine ⟨fun id member => ?_, ?_⟩
  · rw [outputs id (List.mem_append_left _ member), zeros id member]
  · rw [outputs root (List.mem_append_right _ (List.mem_singleton_self _)), same]

section Choices

variable {tree : ChosenWiring}

/-- A prover who chooses the truth of the leaves satisfies the policy when the chosen tree is true. -/
theorem policyAccepts_choice (correct : Compiled policy compiled root tree.wiring) :
    PolicyAccepts compiled policy tree.secrets ↔ tree.eval Prod.snd = true := by
  rw [correct.policyAccepts_iff]
  constructor
  · rintro ⟨value, runs, _, one⟩
    rw [(correct.choice_realized runs).2.2] at one
    exact Formula.bit_eq_one_iff.mp one
  · intro chosen
    obtain ⟨value, runs⟩ := correct.exists_runs_of_choice
    obtain ⟨_, zeros, last⟩ := correct.choice_realized runs
    exact ⟨value, runs, zeros, last.trans (Formula.bit_eq_one_iff.mpr chosen)⟩

/-- A vanishing binding product lets every choice through. -/
theorem boundAccepts_choice (correct : Compiled policy compiled root tree.wiring)
    (through : tree.eval Prod.snd = true ∨ bindingProduct statement = 0) :
    BoundAccepts compiled policy statement tree.secrets := by
  obtain ⟨value, runs⟩ := correct.exists_runs_of_choice
  obtain ⟨_, zeros, last⟩ := correct.choice_realized runs
  refine correct.boundAccepts_iff.mpr ⟨value, runs, zeros, ?_⟩
  rcases through with chosen | zero
  · rw [last, Formula.bit_eq_one_iff.mpr chosen, one_mul]
  · rw [zero, mul_zero]

end Choices

end Compiled

section Masking

variable {policy : Policy} {compiled : CompiledPolicy FieldElement}

/-- The payment binding masks no unsatisfied policy exactly when no binding
value is zero in the field: a zero binding value accepts any secret inputs
whose constraints vanish. -/
theorem bindStatement_faithful_iff (compiles : compile policy = .ok compiled) (statement : PaymentStatement) :
    (∀ secrets, BoundAccepts compiled policy statement secrets → PolicyAccepts compiled policy secrets) ↔
      ∀ value ∈ bindingValues statement, value ≠ 0 := by
  obtain ⟨root, wiring, correct⟩ := compileWithLayout_ok (compile_ok_iff.mp compiles)
  rw [← bindingProduct_ne_zero_iff]
  constructor
  · intro faithful zero
    have unchosen : ∃ tree : ChosenWiring, tree.wiring = wiring ∧ tree.eval Prod.snd = false := by
      refine ⟨wiring.map (fun leaf => (leaf, false)) id, (Formula.map_map _ _ _ _ wiring).trans wiring.map_self, ?_⟩
      rw [Formula.eval_map]
      exact Formula.eval_false correct.conjunction_nonempty fun _ _ _ inside => (correct.threshold_bounds inside).1
    obtain ⟨tree, rfl, unsatisfied⟩ := unchosen
    have satisfied := correct.policyAccepts_choice.mp (faithful _ (correct.boundAccepts_choice (Or.inr zero)))
    rw [unsatisfied] at satisfied
    cases satisfied
  · intro nonzero secrets accepted
    obtain ⟨value, runs, zeros, same⟩ := correct.boundAccepts_iff.mp accepted
    exact correct.policyAccepts_iff.mpr ⟨value, runs, zeros, (mul_eq_right₀ nonzero).mp same⟩

/-- A statement over filled digests. -/
def filledStatement (amount : UInt64) : PaymentStatement where
  paymentId := (CredentialId.filled 2).toDigest
  amount := ⟨amount, .cents⟩
  recipientCommitment := (CredentialId.filled 3).toDigest
  policyId := (CredentialId.filled 4).toDigest
  circuitId := (CredentialId.filled 5).toDigest
  protocolVersion := 2
  nonce := (CredentialId.filled 6).toDigest

theorem filledStatement_nonzero {amount : UInt64} (positive : amount ≠ 0) :
    ∀ value ∈ bindingValues (filledStatement amount), value ≠ 0 := by
  have order : UInt64.size < fieldOrder := by decide +kernel
  have cast : (amount.toNat : FieldElement) ≠ 0 := by
    rw [ne_eq, ZMod.natCast_eq_zero_iff]
    intro divides
    have small := amount.toNat_lt
    have zero := Nat.eq_zero_of_dvd_of_lt divides (small.trans order)
    exact positive (UInt64.toNat_inj.mp zero)
  have digests : ∀ byte ∈ [2, 3, 6], (digestToField (CredentialId.filled byte).toDigest : FieldElement) ≠ 0 := by
    simp only [digestToField, ne_eq, ZMod.natCast_eq_zero_iff]
    decide +kernel
  simp only [bindingValues, filledStatement, List.mem_cons, List.not_mem_nil, or_false, forall_eq_or_imp, forall_eq]
  exact ⟨cast, digests 3 (by decide), digests 6 (by decide), digests 2 (by decide)⟩

/-- A payment of five is accepted only from a payer with the credential. -/
theorem bindStatement_faithful_iff_credential :
    ∃ compiled : CompiledPolicy FieldElement, compile (.credential (.filled 1)) = .ok compiled ∧
      ∀ secrets, BoundAccepts compiled (.credential (.filled 1)) (filledStatement 5) secrets →
        PolicyAccepts compiled (.credential (.filled 1)) secrets := by
  obtain ⟨compiled, compiles⟩ := @compileWithLayout_succeeds (.credential (.filled 1)) (by decide)
  have compiles := compile_ok_iff.mpr compiles
  exact ⟨compiled, compiles,
    (bindStatement_faithful_iff compiles (filledStatement 5)).mpr (filledStatement_nonzero (by decide))⟩

/-- A free payment is accepted from a payer without the credential. -/
theorem bindStatement_masks_free :
    ∃ compiled : CompiledPolicy FieldElement, compile (.credential (.filled 1)) = .ok compiled ∧
      BoundAccepts compiled (.credential (.filled 1)) (filledStatement 0)
        [digestToField (CredentialId.filled 1).toDigest + 1] ∧
      ¬ PolicyAccepts compiled (.credential (.filled 1)) [digestToField (CredentialId.filled 1).toDigest + 1] := by
  obtain ⟨compiled, compiles⟩ := @compileWithLayout_succeeds (.credential (.filled 1)) (by decide)
  obtain ⟨root, wiring, correct⟩ := compileWithLayout_ok compiles
  obtain ⟨secret, commitment, wire, rfl⟩ := correct.credential_wiring
  have chosen : ChosenWiring.secrets (.leaf (.credential (.filled 1) secret commitment wire, false)) =
      [digestToField (CredentialId.filled 1).toDigest + 1] := rfl
  have zero : bindingProduct (filledStatement 0) = 0 := by
    rw [bindingProduct_eq]
    exact List.prod_eq_zero List.mem_cons_self
  rw [← chosen]
  refine ⟨compiled, compile_ok_iff.mpr compiles, Compiled.boundAccepts_choice correct (Or.inr zero), fun satisfied => ?_⟩
  cases (Compiled.policyAccepts_choice correct).mp satisfied

end Masking

section Limits

/-- A leaf read against a payment amount: a cap by comparison, a credential by
whether its secret input equals its public commitment. -/
def LeafWiring.readAt (amount : UInt64) (value : ℕ → FieldElement) : LeafWiring → Bool
  | .amount limit _ _ => decide (amount ≤ limit.value)
  | .credential _ secret commitment _ => decide (value secret.asUsize = value commitment.asUsize)

/-- The policy tree is true of an amount and of the secret inputs. -/
def TreeHolds (compiled : CompiledPolicy FieldElement) (policy : Policy) (amount : UInt64)
    (secrets : List FieldElement) : Prop :=
  ∃ (root : NodeId) (wiring : Wiring) (final : Compiler FieldElement) (publics values : List FieldElement),
    Compiler.wirePolicy policy.normalizeNode Compiler.new = .ok ((root, wiring), final) ∧
      policyPublicInputs compiled policy = .ok publics ∧ evalAllNodes compiled.circuit secrets publics = .ok values ∧
      wiring.eval (LeafWiring.readAt amount (inputAt values)) = true

/-- A leaf occurrence with its own flag: credentials are read from the flag, caps from the given test. -/
def PolicyLeaf.readWith (cap : UInt64 → Bool) : PolicyLeaf × Bool → Bool
  | (.amountAtMost limit, _) => cap limit.value
  | (.credential _, held) => held

/-- No authorization hinges on a cap below the amount: whichever credential
leaves are held, a policy true with every cap met is true with the caps read
against the amount. -/
def CapsImmaterial (policy : Policy) (amount : UInt64) : Prop :=
  ∀ tree : Formula (PolicyLeaf × Bool) Unit, tree.map Prod.fst id = policy.normalizeNode.formula →
    tree.eval (PolicyLeaf.readWith fun _ => true) = true →
      tree.eval (PolicyLeaf.readWith fun limit => amount ≤ limit) = true

variable {policy : Policy} {compiled : CompiledPolicy FieldElement} {root : NodeId} {wiring : Wiring}
  {statement : PaymentStatement} {amount : UInt64} {secrets : List FieldElement}

theorem Compiled.treeHolds_iff (correct : Compiled policy compiled root wiring) :
    TreeHolds compiled policy amount secrets ↔
      ∃ values, evalAllNodes compiled.circuit secrets (wiring.subformulas.flatMap partPublics) = .ok values ∧
        wiring.eval (LeafWiring.readAt amount (inputAt values)) = true := by
  obtain ⟨final, emitted⟩ := correct.emitted
  constructor
  · rintro ⟨root', wiring', final', publics, values, emitted', inputs, evaluated, holds⟩
    cases emitted.symm.trans emitted'
    cases correct.policyPublicInputs_eq.symm.trans inputs
    exact ⟨values, evaluated, holds⟩
  · rintro ⟨values, evaluated, holds⟩
    exact ⟨root, wiring, final, _, values, emitted, correct.policyPublicInputs_eq, evaluated, holds⟩

/-- Accepted secret inputs satisfy the tree with the caps met. -/
private theorem Compiled.accepted_eval (correct : Compiled policy compiled root wiring)
    (nonzero : bindingProduct statement ≠ 0) (accepted : BoundAccepts compiled policy statement secrets)
    {values : List FieldElement}
    (evaluated : evalAllNodes compiled.circuit secrets (wiring.subformulas.flatMap partPublics) = .ok values) :
    wiring.eval (fun leaf => PolicyLeaf.readWith (fun _ => true)
      (leaf.leaf, LeafWiring.readAt amount (inputAt values) leaf)) = true := by
  have runs := correct.evalAllNodes_runs evaluated
  obtain ⟨zeros, same⟩ := BoundAccepts.of_runs correct accepted runs
  have held := correct.eval_of_root runs.satisfies zeros ((mul_eq_right₀ nonzero).mp same)
  refine Formula.eval_mono (fun leaf inside one => ?_) held
  cases leaf with
  | amount limit inputs wire => rfl
  | credential id secret commitment wire =>
    exact decide_eq_true ((correct.credential_eq_one_iff runs.satisfies inside).mp (of_decide_eq_true one))

/-- With binding values that are not zero, the bound circuit enforces the limits
of a policy on the statement's amount exactly when no authorization hinges on a
cap below that amount: the amount inside the circuit is the prover's own. -/
theorem spendingLimits_enforced_iff (compiles : compile policy = .ok compiled)
    (nonzero : ∀ value ∈ bindingValues statement, value ≠ 0) :
    (∀ secrets, BoundAccepts compiled policy statement secrets →
        TreeHolds compiled policy statement.amount.value secrets) ↔
      CapsImmaterial policy statement.amount.value := by
  obtain ⟨root, wiring, correct⟩ := compileWithLayout_ok (compile_ok_iff.mp compiles)
  rw [← bindingProduct_ne_zero_iff] at nonzero
  constructor
  · intro enforced tree decorates met
    obtain ⟨lifted, rfl, rfl⟩ := Formula.exists_decoration (decorates.trans correct.formula.symm)
    obtain ⟨chosen, defined⟩ : ∃ chosen : ChosenWiring, chosen = lifted.map (fun entry =>
      (entry.1, PolicyLeaf.readWith (fun _ => true) (entry.1.leaf, entry.2))) id := ⟨_, rfl⟩
    have same : lifted.map Prod.fst id = chosen.wiring := by
      rw [defined, ChosenWiring.wiring, Formula.map_map]
      rfl
    rw [same] at correct
    rw [Formula.eval_map] at met ⊢
    have through : chosen.eval Prod.snd = true := by
      rw [defined, Formula.eval_map]
      exact met
    obtain ⟨values, evaluated, holds⟩ :=
      correct.treeHolds_iff.mp (enforced _ (correct.boundAccepts_choice (Or.inl through)))
    have runs := correct.evalAllNodes_runs evaluated
    have leaves := (correct.choice_realized runs).1
    rw [← same, Formula.eval_map] at holds
    refine Formula.eval_mono (fun entry inside read => ?_) holds
    obtain ⟨leaf, held⟩ := entry
    have carried : inputAt values leaf.wire.asUsize =
        Formula.bit (PolicyLeaf.readWith (fun _ => true) (leaf.leaf, held)) := by
      refine leaves (leaf, _) ?_
      rw [defined, Formula.leaves_map]
      exact List.mem_map_of_mem (Formula.mem_leaves.mpr inside)
    cases leaf with
    | amount limit inputs wire => exact read
    | credential id secret commitment wire =>
      have listed : .leaf (.credential id secret commitment wire) ∈ chosen.wiring.subformulas := by
        rw [← same, Formula.subformulas_map]
        exact List.mem_map_of_mem inside
      have one := (correct.credential_eq_one_iff runs.satisfies listed).mpr (of_decide_eq_true read)
      exact Formula.bit_eq_one_iff.mp (carried.symm.trans one)
  · intro immaterial secrets accepted
    obtain ⟨value, runs, _⟩ := correct.boundAccepts_iff.mp accepted
    obtain ⟨secretCount, publicCount, _⟩ := (Circuit.runs_iff correct.wellFormed).mp runs
    obtain ⟨values, evaluated⟩ := exists_evalAllNodes correct.wellFormed secretCount publicCount
    refine correct.treeHolds_iff.mpr ⟨values, evaluated, ?_⟩
    have met := @Compiled.accepted_eval _ _ _ _ _ statement.amount.value _ correct nonzero accepted _ evaluated
    have read := immaterial (wiring.map (fun leaf => (leaf.leaf, leaf.readAt statement.amount.value (inputAt values)))
      fun _ => ()) ?_ ?_
    · rw [Formula.eval_map] at read
      refine Formula.eval_mono (fun leaf _ holds => ?_) read
      cases leaf <;> exact holds
    · rw [Formula.map_map]
      exact correct.formula
    · rw [Formula.eval_map]
      exact met

/-- A cap of five is enforced on a payment of five. -/
theorem spendingLimits_enforced_iff_cap :
    ∃ compiled : CompiledPolicy FieldElement, compile (.amountAtMost ⟨5⟩) = .ok compiled ∧
      ∀ secrets, BoundAccepts compiled (.amountAtMost ⟨5⟩) (filledStatement 5) secrets →
        TreeHolds compiled (.amountAtMost ⟨5⟩) 5 secrets := by
  obtain ⟨compiled, compiles⟩ := @compileWithLayout_succeeds (.amountAtMost ⟨5⟩) (by decide)
  have compiles := compile_ok_iff.mpr compiles
  refine ⟨compiled, compiles,
    (spendingLimits_enforced_iff compiles (filledStatement_nonzero (by decide))).mpr fun tree decorates _ => ?_⟩
  cases tree with
  | leaf entry =>
    obtain ⟨leaf, held⟩ := entry
    obtain rfl : leaf = .amountAtMost ⟨5⟩ := by
      rw [Formula.map_leaf] at decorates
      exact Formula.leaf.inj decorates
    rfl
  | atLeast | all | any => simp [Policy.normalizeNode] at decorates

/-- A cap of five does not stop a payment of ten whose payer fills in an amount of zero. -/
theorem spendingLimits_bypassed :
    ∃ compiled : CompiledPolicy FieldElement, compile (.amountAtMost ⟨5⟩) = .ok compiled ∧
      (∀ value ∈ bindingValues (filledStatement 10), value ≠ 0) ∧
      BoundAccepts compiled (.amountAtMost ⟨5⟩) (filledStatement 10)
        ((0 : FieldElement) :: (decompose 0 ++ decompose 5).map fun bit => (bit.toNat : FieldElement)) ∧
      ¬ TreeHolds compiled (.amountAtMost ⟨5⟩) 10
        ((0 : FieldElement) :: (decompose 0 ++ decompose 5).map fun bit => (bit.toNat : FieldElement)) := by
  obtain ⟨compiled, compiles⟩ := @compileWithLayout_succeeds (.amountAtMost ⟨5⟩) (by decide)
  obtain ⟨root, wiring, correct⟩ := compileWithLayout_ok compiles
  obtain ⟨inputs, wire, rfl⟩ := correct.amount_wiring
  have chosen : ChosenWiring.secrets (.leaf (.amount ⟨5⟩ inputs wire, true)) =
      (0 : FieldElement) :: (decompose 0 ++ decompose 5).map fun bit => (bit.toNat : FieldElement) :=
    List.append_nil _
  rw [← chosen]
  refine ⟨compiled, compile_ok_iff.mpr compiles, filledStatement_nonzero (by decide),
    Compiled.boundAccepts_choice correct (Or.inl rfl), fun holds => ?_⟩
  obtain ⟨values, _, read⟩ := correct.treeHolds_iff.mp holds
  cases read

end Limits

end PaymentAuth
