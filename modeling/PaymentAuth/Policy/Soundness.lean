import PaymentAuth.Policy.Compiled
import PaymentAuth.Policy.Inputs
import PaymentAuth.Policy.Totality

/-! Compiled policies against arbitrary secret inputs. -/

namespace PaymentAuth

open Library

/-- An assignment that follows a circuit's inputs satisfies its gates. -/
theorem Circuit.Solves.satisfies {F : Type} [CommRing F] {circuit : Circuit F} {secrets publics value : ℕ → F}
    (solved : circuit.Solves (circuit.plaintext secrets publics) value) :
    CircuitBuilder.Satisfies circuit.nodes value := by
  intro n node found
  have rule := solved n node found
  cases node with
  | secretInput | publicInput => trivial
  | constant | add | mul => exact rule

/-- Numbers up to the largest threshold are told apart in the field. -/
theorem fieldElement_wide (n : ℕ) (small : n ≤ maxThresholdMembers) (zero : (n : FieldElement) = 0) : n = 0 := by
  rw [ZMod.natCast_eq_zero_iff] at zero
  refine Nat.eq_zero_of_dvd_of_lt zero (Nat.lt_of_le_of_lt small ?_)
  decide +kernel

namespace Compiled

/-- Evaluation reads the secret and public inputs at the declared nodes. -/
theorem inputs_eq {p : ℕ} [Fact p.Prime] {policy : Policy} {compiled : CompiledPolicy (ZMod p)} {root : NodeId}
    {wiring : Wiring} (correct : Compiled policy compiled root wiring) {secrets publics values : List (ZMod p)}
    (evaluated : evalAllNodes compiled.circuit secrets publics = .ok values) :
    secrets = wiring.layout.secretNodes.map (inputAt values) ∧
      publics = wiring.layout.publicNodes.map (inputAt values) := by
  obtain ⟨secretCount, publicCount, _, solved⟩ := (evalAllNodes_ok_iff correct.wellFormed).mp evaluated
  rw [← correct.secretNodes, ← correct.publicNodes]
  exact ⟨solved.secretInputs_eq correct.wellFormed secretCount,
    solved.publicInputs_eq correct.wellFormed publicCount⟩

/-- The wiring of a single credential is a single leaf. -/
theorem credential_wiring {p : ℕ} [Fact p.Prime] {id : CredentialId} {compiled : CompiledPolicy (ZMod p)}
    {root : NodeId} {wiring : Wiring} (correct : Compiled (.credential id) compiled root wiring) :
    ∃ secret commitment wire, wiring = .leaf (.credential id secret commitment wire) := by
  have formula := correct.formula
  cases wiring with
  | leaf leaf =>
    cases leaf with
    | amount limit inputs wire => cases formula
    | credential id' secret commitment wire =>
      cases formula
      exact ⟨secret, commitment, wire, rfl⟩
  | atLeast | all | any => simp [Policy.normalizeNode] at formula

/-- The wiring of a single cap is a single leaf. -/
theorem amount_wiring {p : ℕ} [Fact p.Prime] {limit : AmountLimit} {compiled : CompiledPolicy (ZMod p)}
    {root : NodeId} {wiring : Wiring} (correct : Compiled (.amountAtMost limit) compiled root wiring) :
    ∃ inputs wire, wiring = .leaf (.amount limit inputs wire) := by
  have formula := correct.formula
  cases wiring with
  | leaf leaf =>
    cases leaf with
    | credential id secret commitment wire => cases formula
    | amount limit' inputs wire =>
      cases formula
      exact ⟨inputs, wire, rfl⟩
  | atLeast | all | any => simp [Policy.normalizeNode] at formula

variable {policy : Policy} {compiled : CompiledPolicy FieldElement} {root : NodeId} {wiring : Wiring}
  {value : ℕ → FieldElement}

/-- Every leaf wire is boolean, whatever its inputs are. -/
theorem leaf_isBoolean (correct : Compiled policy compiled root wiring)
    (held : CircuitBuilder.Satisfies compiled.circuit.nodes value) {leaf : LeafWiring}
    (inside : .leaf leaf ∈ wiring.subformulas) : Formula.IsBoolean (value leaf.wire.asUsize) := by
  have holds := correct.holds value held _ inside
  cases leaf with
  | amount limit inputs wire =>
    rw [show value (LeafWiring.amount limit inputs wire).wire.asUsize = _ from holds]
    refine Formula.isBoolean_prod fun factor member => ?_
    obtain ⟨constraint, _, rfl⟩ := List.mem_map.mp member
    rw [Compiler.zeroIndicator_eq_bit]
    exact Formula.bit_isBoolean _
  | credential id secret commitment wire =>
    rw [show value (LeafWiring.credential id secret commitment wire).wire.asUsize = _ from holds,
      Compiler.zeroIndicator_eq_bit]
    exact Formula.bit_isBoolean _

/-- A credential wire is one exactly when the two inputs of the leaf agree. -/
theorem credential_eq_one_iff (correct : Compiled policy compiled root wiring)
    (held : CircuitBuilder.Satisfies compiled.circuit.nodes value) {id : CredentialId}
    {secret commitment wire : NodeId} (inside : .leaf (.credential id secret commitment wire) ∈ wiring.subformulas) :
    value wire.asUsize = 1 ↔ value secret.asUsize = value commitment.asUsize := by
  have holds := correct.holds value held _ inside
  rw [show value wire.asUsize = _ from holds, Compiler.zeroIndicator_eq_bit, Formula.bit_eq_one_iff,
    decide_eq_true_eq, sub_eq_zero]

/-- A vanishing booleanity constraint makes its threshold wire boolean. -/
theorem threshold_isBoolean (correct : Compiled policy compiled root wiring)
    (held : CircuitBuilder.Satisfies compiled.circuit.nodes value)
    (constraints : ∀ id ∈ wiring.layout.constraints, value id.asUsize = 0) {k : ℕ} {nodes : ThresholdWiring}
    {members : List Wiring} (inside : .atLeast k nodes members ∈ wiring.subformulas) :
    Formula.IsBoolean (Wiring.valueAt value (.atLeast k nodes members)) := by
  obtain ⟨discriminant, product, booleanity⟩ := correct.holds value held _ inside
  have vanishes : value nodes.booleanity.asUsize = 0 := by
    apply constraints
    rw [Wiring.layout, Layout.sum_eq]
    simp only [List.flatMap_map, List.mem_flatMap]
    exact ⟨_, inside, List.mem_singleton_self _⟩
  have same : Wiring.valueAt value (.atLeast k nodes members) = value nodes.wire.asUsize := by
    rw [product, discriminant, Wiring.valueAt, Formula.wire_atLeast]
    rfl
  rw [same]
  rw [booleanity] at vanishes
  exact Formula.isBoolean_of_mul_sub vanishes

/-- Zero constraints and a root of one prove the wired policy true over its leaf wires. -/
theorem eval_of_root (correct : Compiled policy compiled root wiring)
    (held : CircuitBuilder.Satisfies compiled.circuit.nodes value)
    (constraints : ∀ id ∈ wiring.layout.constraints, value id.asUsize = 0) (one : value root.asUsize = 1) :
    wiring.eval (fun leaf => decide (value leaf.wire.asUsize = 1)) = true := by
  have sound : Formula.IsBoolean (wiring.valueAt value) ∧
      (wiring.valueAt value = 1 → wiring.eval (fun leaf => decide (value leaf.wire.asUsize = 1)) = true) := by
    refine Formula.wire_sound fieldElement_wide (fun leaf inside => correct.leaf_isBoolean held inside) ?_
    intro k nodes members inside
    exact ⟨(correct.threshold_bounds inside).2.2, correct.threshold_isBoolean held constraints inside⟩
  exact sound.2 ((correct.value value held).symm.trans one)

/-- The wiring of a policy is true exactly when the policy is, leaf by leaf. -/
theorem eval_leaf (correct : Compiled policy compiled root wiring) (truth : PolicyLeaf → Bool) :
    wiring.eval (fun leaf => truth leaf.leaf) = policy.formula.eval truth := by
  rw [correct.equivalent.eval truth, ← correct.formula, Formula.eval_map]

/-- The declared secret and commitment of a credential are a secret and a public input. -/
theorem credential_inputs (correct : Compiled policy compiled root wiring) {id : CredentialId}
    {secret commitment wire : NodeId} (inside : .leaf (.credential id secret commitment wire) ∈ wiring.subformulas) :
    compiled.circuit.isSecretInput secret.asUsize = true ∧
      compiled.circuit.isPublicInput commitment.asUsize = true := by
  have secrets : secret.asUsize ∈ wiring.layout.secretNodes := by
    rw [Wiring.layout, Layout.sum_eq]
    simp only [List.flatMap_map, List.mem_flatMap]
    exact ⟨_, inside, List.mem_singleton_self _⟩
  have publics : commitment.asUsize ∈ wiring.layout.publicNodes := by
    rw [Wiring.layout, Layout.sum_eq]
    simp only [List.flatMap_map, List.mem_flatMap]
    exact ⟨_, inside, List.mem_singleton_self _⟩
  rw [← correct.secretNodes, marked, List.mem_filter] at secrets
  rw [← correct.publicNodes, marked, List.mem_filter] at publics
  exact ⟨secrets.2, publics.2⟩

end Compiled

end PaymentAuth
