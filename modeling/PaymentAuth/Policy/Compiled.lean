import PaymentAuth.Crypto.FieldPrime
import PaymentAuth.Policy.Emitted
import PaymentAuth.Policy.Equivalence

/-! What compiling a policy returns, described by the wiring of its normal form. -/

namespace PaymentAuth

open Library

/-- A compiled policy and the nodes of its wires. -/
structure Compiled {p : ℕ} [Fact p.Prime] (policy : Policy) (compiled : CompiledPolicy (ZMod p)) (root : NodeId)
    (wiring : Wiring) : Prop where
  emitted : ∃ final : Compiler (ZMod p),
    Compiler.wirePolicy policy.normalizeNode Compiler.new = .ok ((root, wiring), final)
  valid : policy.normalizeNode.Valid
  wellFormed : compiled.circuit.WellFormed
  size : compiled.circuit.nodes.length = Compiler.policySize p policy.normalizeNode
  weight : viewWeights compiled.circuit.nodes ≤ Compiler.policyWeight p policy.normalizeNode
  outputs : compiled.circuit.outputs = wiring.layout.constraints ++ [root]
  secretNodes : marked compiled.circuit.isSecretInput compiled.circuit.nodes.length = wiring.layout.secretNodes
  publicNodes : marked compiled.circuit.isPublicInput compiled.circuit.nodes.length = wiring.layout.publicNodes
  auxiliarySlots : compiled.secretSlots.map SecretSlot.isAuxiliary = wiring.layout.auxiliarySlots
  limitSlots : compiled.publicSlots.map PublicSlot.isAmountLimit = wiring.layout.limitSlots
  targets : compiled.auxiliaryTargets = wiring.layout.targets
  solvable : ∀ target ∈ compiled.auxiliaryTargets, target.asUsize < compiled.circuit.nodes.length
  rangeCheckOutputs : compiled.rangeCheckOutputs = wiring.layout.constraints.length
  holds : ∀ value, CircuitBuilder.Satisfies compiled.circuit.nodes value →
    ∀ part ∈ wiring.subformulas, Wiring.PartHolds value part
  shape : ∀ part ∈ wiring.subformulas, Wiring.PartShape part
  value : ∀ value, CircuitBuilder.Satisfies compiled.circuit.nodes value →
    value root.asUsize = wiring.valueAt value
  formula : wiring.map LeafWiring.leaf (fun _ => ()) = policy.normalizeNode.formula

section Compile

variable {p : ℕ} {policy : Policy} {compiled : CompiledPolicy (ZMod p)}

theorem Compiler.finish_ok {F : Type} {compiler : Compiler F} {root : NodeId} {compiled : CompiledPolicy F}
    (finished : compiler.finish root = .ok compiled) :
    compiled.circuit.WellFormed ∧ compiled.circuit.nodes = compiler.builder.nodes ∧
      compiled.circuit.outputs = compiler.builder.outputs ++ compiler.constraintOutputs ++ [root] ∧
      compiled.secretSlots = compiler.secretSlots ∧ compiled.publicSlots = compiler.publicSlots ∧
      compiled.auxiliaryTargets = compiler.auxiliaryTargets ∧
      compiled.rangeCheckOutputs = compiler.constraintOutputs.length := by
  obtain ⟨⟨_, builder⟩, published, finished⟩ := Outcome.bind_ok_iff.mp finished
  obtain ⟨_, middle, constraints, last⟩ := Emission.bind_ok_iff.mp (Outcome.mapError_ok_iff.mp published)
  obtain rfl := CircuitBuilder.forM_output_ok constraints
  obtain ⟨_, _, defined, modified⟩ := Emission.bind_ok_iff.mp last
  obtain ⟨_, rfl⟩ := CircuitBuilder.checkDefined_ok_iff.mp defined
  cases modified
  obtain ⟨circuit, built, finished⟩ := Outcome.bind_ok_iff.mp finished
  obtain ⟨valid, rfl⟩ := CircuitBuilder.build_ok_iff.mp (Outcome.mapError_ok_iff.mp built)
  cases finished
  exact ⟨valid, rfl, rfl, rfl, rfl, rfl, rfl⟩

/-- A new compiler is well formed. -/
theorem Compiler.new_ready {F : Type} [CommRing F] : observer.Ready [] (new : Compiler F) :=
  ⟨⟨⟨CircuitBuilder.new_wellBuilt, rfl⟩, by simp [new]⟩, by simp⟩

/-- Every successful compilation has a wiring. -/
theorem compileWithLayout_ok [Fact p.Prime] (compiles : compileWithLayout policy = .ok compiled) :
    ∃ root wiring, Compiled policy compiled root wiring := by
  obtain ⟨_, normalizes, compiles⟩ := Outcome.bind_ok_iff.mp compiles
  cases normalizes
  obtain ⟨_, validates, compiles⟩ := Outcome.bind_ok_iff.mp compiles
  obtain ⟨⟨root, compiler⟩, emits, finished⟩ := Outcome.bind_ok_iff.mp compiles
  rw [Compiler.wirePolicy_erase] at emits
  obtain ⟨⟨wire, wiring⟩, wires, rfl⟩ := Emission.map_ok_iff.mp emits
  obtain ⟨wellFormed, nodes, outputs, secretSlots, publicSlots, targets, rangeChecks⟩ := Compiler.finish_ok finished
  have valid := Policy.valid_of_validate validates
  have emitted := @Compiler.wirePolicy_emits p _ _ valid.each
  obtain ⟨added, extension, laid, copied⟩ := emitted.extension _ _ _ wires
  obtain ⟨⟨_, published⟩, recorded⟩ := (emitted.ready _ _ _ wires Compiler.new_ready).sound
  have layout : compiler.layout = wiring.layout := by
    rw [← laid]
    exact extension.log.trans (zero_add added)
  have carries (value : ℕ → ZMod p) (held : CircuitBuilder.Satisfies compiled.circuit.nodes value) :
      Compiler.Carries value wire wiring := by
    rw [nodes] at held
    exact emitted.meaning _ _ _ wires value held
  refine ⟨wire, wiring, {
    emitted := ⟨compiler, wires⟩
    valid := valid
    wellFormed := wellFormed
    size := ?_
    weight := ?_
    outputs := ?_
    secretNodes := ?_
    publicNodes := ?_
    auxiliarySlots := by rw [secretSlots, ← layout]; rfl
    limitSlots := by rw [publicSlots, ← layout]; rfl
    targets := by rw [targets, ← layout]; rfl
    solvable := ?_
    rangeCheckOutputs := by rw [rangeChecks, ← layout]; rfl
    holds := fun value held => (carries value held).holds
    shape := copied.shape
    value := fun value held => (carries value held).root
    formula := copied.formula }⟩
  · rw [nodes]
    exact extension.size.trans (Nat.zero_add _)
  · rw [nodes]
    exact extension.weight.trans (Nat.zero_add _).le
  · rw [outputs, published, ← layout]
    rfl
  · rw [← layout]
    unfold Circuit.isSecretInput
    rw [nodes]
    rfl
  · rw [← layout]
    unfold Circuit.isPublicInput
    rw [nodes]
    rfl
  · rw [targets, nodes]
    exact fun target listed => recorded target (List.mem_append_right _ listed)

end Compile

namespace Compiled

section Nodes

variable {p : ℕ} [Fact p.Prime] {policy : Policy} {compiled : CompiledPolicy (ZMod p)} {root : NodeId}
  {wiring : Wiring}

/-- A compiled policy is equivalent to its normal form. -/
theorem equivalent (correct : Compiled policy compiled root wiring) :
    Policy.Equivalent policy policy.normalizeNode :=
  Policy.equivalent_normalizeNode (Policy.short_of_length correct.valid.encodeNode_length_lt)

/-- The nodes of a wiring are those of the validated policy. -/
theorem nodeValid (correct : Compiled policy compiled root wiring) {part : Wiring}
    (inside : part ∈ wiring.subformulas) : Policy.NodeValid (part.map LeafWiring.leaf fun _ => ()) := by
  apply correct.valid.each
  rw [← correct.formula, Formula.subformulas_map]
  exact List.mem_map_of_mem inside

theorem secretCount (correct : Compiled policy compiled root wiring) :
    compiled.circuit.numSecretInputs = wiring.layout.secretNodes.length := by
  rw [← correct.wellFormed.secretRank_length, ← correct.secretNodes]
  rfl

theorem publicCount (correct : Compiled policy compiled root wiring) :
    compiled.circuit.numPublicInputs = wiring.layout.publicNodes.length := by
  rw [← correct.wellFormed.publicRank_length, ← correct.publicNodes]
  rfl

theorem threshold_bounds (correct : Compiled policy compiled root wiring) {k : ℕ} {nodes : ThresholdWiring}
    {members : List Wiring} (inside : .atLeast k nodes members ∈ wiring.subformulas) :
    1 ≤ k ∧ k ≤ members.length ∧ members.length ≤ maxThresholdMembers := by
  have valid := correct.nodeValid inside
  rw [Formula.map_atLeast] at valid
  simpa [Policy.NodeValid] using valid

theorem conjunction_nonempty (correct : Compiled policy compiled root wiring) :
    .all [] ∉ wiring.subformulas := by
  intro inside
  have valid := correct.nodeValid inside
  simp [Policy.NodeValid] at valid

theorem disjunction_nonempty (correct : Compiled policy compiled root wiring) :
    .any [] ∉ wiring.subformulas := by
  intro inside
  have valid := correct.nodeValid inside
  simp [Policy.NodeValid] at valid

end Nodes

section Bounds

variable {policy : Policy} {compiled : CompiledPolicy FieldElement} {root : NodeId} {wiring : Wiring}

/-- A compiled circuit is small. -/
theorem nodes_lt (correct : Compiled policy compiled root wiring) : compiled.circuit.nodes.length < 2 ^ 27 := by
  have bound := Compiler.policySize_le correct.valid
  rw [maxPolicyNodes] at bound
  rw [correct.size]
  omega

/-- So are the views of its nodes. -/
theorem viewWeights_le (correct : Compiled policy compiled root wiring) :
    viewWeights compiled.circuit.nodes ≤ maxPolicyNodes * 414102 :=
  correct.weight.trans (Compiler.policyWeight_le correct.valid)

end Bounds

end Compiled

end PaymentAuth
