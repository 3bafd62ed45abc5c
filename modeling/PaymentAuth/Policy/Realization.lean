import PaymentAuth.Circuit.Runs
import PaymentAuth.Policy.Agreement

/-! Which leaves a prover can make true: any of them, each on its own. -/

namespace PaymentAuth

open Library

/-- A wiring with a chosen truth value at every leaf. -/
abbrev ChosenWiring := Formula (LeafWiring × Bool) ThresholdWiring

/-- Secret inputs that give a leaf the chosen truth value. -/
def chosenSecrets (chosen : Bool) : PolicyLeaf → List FieldElement
  | .credential id => [digestToField id.toDigest + Formula.bit !chosen]
  | .amountAtMost limit => Formula.bit (!chosen) ::
      (decompose 0 ++ decompose limit.value).map fun bit => (bit.toNat : FieldElement)

/-- Secret inputs that settle every node of a chosen wiring. -/
def ChosenWiring.partSecrets : ChosenWiring → List FieldElement
  | .leaf entry => chosenSecrets entry.2 entry.1.leaf
  | .atLeast k _ members => [(Formula.discriminant k (members.countP (Formula.eval Prod.snd) : FieldElement))⁻¹]
  | .all _ | .any _ => []

/-- The secret inputs that settle a chosen wiring. -/
def ChosenWiring.secrets (tree : ChosenWiring) : List FieldElement := tree.subformulas.flatMap partSecrets

/-- The wiring without the choice. -/
def ChosenWiring.wiring (tree : ChosenWiring) : Wiring := tree.map Prod.fst id

theorem ChosenWiring.wiring_atLeast (k : ℕ) (nodes : ThresholdWiring) (members : List ChosenWiring) :
    ChosenWiring.wiring (.atLeast k nodes members) = .atLeast k nodes (members.map ChosenWiring.wiring) :=
  Formula.map_atLeast _ _ k nodes members

theorem amountValue_chosen (chosen : Bool) (limit : UInt64) :
    Compiler.amountValue (Formula.bit (!chosen) : FieldElement) (limit.toNat : FieldElement)
      ((decompose 0).map fun bit => (bit.toNat : FieldElement))
      ((decompose limit).map fun bit => (bit.toNat : FieldElement)) = Formula.bit chosen := by
  cases chosen with
  | true =>
    have filled := amountValue_filled 0 limit
    rw [UInt64.sub_zero] at filled
    simpa using filled
  | false =>
    unfold Compiler.amountValue RangeCheck.constraintValues
    rw [recombine_decompose, Bool.not_false, Formula.bit_true, Formula.bit_false, List.prod_eq_zero_iff]
    refine List.mem_map.mpr ⟨(0 : UInt64).toNat - 1, by simp, ?_⟩
    rw [Compiler.zeroIndicator_eq_bit]
    simp

theorem ChosenWiring.partSecrets_length {part : ChosenWiring} (shape : part.wiring.PartShape) :
    part.partSecrets.length = part.wiring.partLayout.secretNodes.length := by
  cases part with
  | leaf entry =>
    obtain ⟨leaf, chosen⟩ := entry
    cases leaf with
    | amount limit inputs wire =>
      obtain ⟨values, differences⟩ := shape
      simp [partSecrets, chosenSecrets, LeafWiring.leaf, wiring, Wiring.partLayout, decompose, values, differences]
    | credential id secret commitment wire => rfl
  | atLeast | all | any => simp [partSecrets, wiring, Wiring.partLayout, Layout.zero_def]

namespace Compiled

variable {policy : Policy} {compiled : CompiledPolicy FieldElement} {root : NodeId} {wiring : Wiring}
  {secrets publics : List FieldElement} {value : ℕ → FieldElement}

theorem runs_iff (correct : Compiled policy compiled root wiring) :
    compiled.circuit.Runs secrets publics value ↔ CircuitBuilder.Satisfies compiled.circuit.nodes value ∧
      secrets = wiring.layout.secretNodes.map value ∧ publics = wiring.layout.publicNodes.map value := by
  rw [← correct.secretNodes, ← correct.publicNodes]
  exact ⟨fun runs => ⟨runs.satisfies, runs.secrets, runs.publics⟩,
    fun ⟨satisfies, secrets, publics⟩ => ⟨satisfies, secrets, publics⟩⟩

/-- Values of the unbound circuit are the runs of its inputs. -/
theorem evalAllNodes_runs (correct : Compiled policy compiled root wiring) {values : List FieldElement}
    (evaluated : evalAllNodes compiled.circuit secrets publics = .ok values) :
    compiled.circuit.Runs secrets publics (inputAt values) := by
  obtain ⟨secretCount, publicCount, _, solved⟩ := (evalAllNodes_ok_iff correct.wellFormed).mp evaluated
  exact (Circuit.runs_iff correct.wellFormed).mpr ⟨secretCount, publicCount, solved⟩

/-- The public inputs of a leaf are found at its public nodes. -/
theorem publics_at (correct : Compiled policy compiled root wiring)
    (runs : compiled.circuit.Runs secrets (wiring.subformulas.flatMap partPublics) value) {part : Wiring}
    (inside : part ∈ wiring.subformulas) : part.partLayout.publicNodes.map value = partPublics part := by
  have whole := (correct.runs_iff.mp runs).2.2
  rw [wiring.publicNodes_eq, List.map_flatMap] at whole
  exact (eq_of_flatMap_eq (fun part _ => by rw [partPublics_length, List.length_map]) whole part inside).symm

/-- A leaf filled for a choice carries the choice. -/
theorem leaf_chosen (correct : Compiled policy compiled root wiring)
    (held : CircuitBuilder.Satisfies compiled.circuit.nodes value) {leaf : LeafWiring} {chosen : Bool}
    (inside : .leaf leaf ∈ wiring.subformulas)
    (secrets : (Wiring.partLayout (.leaf leaf)).secretNodes.map value = chosenSecrets chosen leaf.leaf)
    (publics : (Wiring.partLayout (.leaf leaf)).publicNodes.map value = leafPublics leaf.leaf) :
    value leaf.wire.asUsize = Formula.bit chosen := by
  have holds := correct.holds value held _ inside
  cases leaf with
  | amount limit inputs wire =>
    obtain ⟨values, differences⟩ := correct.shape _ inside
    simp only [Wiring.partLayout, LeafWiring.leaf, chosenSecrets, leafPublics, List.map_cons, List.map_append,
      List.map_map, List.map_nil, List.cons.injEq, and_true] at secrets publics
    obtain ⟨amountValue, digits⟩ := secrets
    obtain ⟨valueDigits, differenceDigits⟩ := List.append_inj digits (by simp [values, decompose])
    rw [show value (LeafWiring.amount limit inputs wire).wire.asUsize = _ from holds, amountValue, publics]
    have decided := amountValue_chosen chosen limit.value
    rw [← valueDigits, ← differenceDigits] at decided
    exact decided
  | credential id secret commitment wire =>
    simp only [Wiring.partLayout, LeafWiring.leaf, chosenSecrets, leafPublics, List.map_cons, List.map_nil,
      List.cons.injEq, and_true] at secrets publics
    rw [show value (LeafWiring.credential id secret commitment wire).wire.asUsize = _ from holds, secrets, publics,
      Compiler.zeroIndicator_eq_bit, add_sub_cancel_left]
    cases chosen <;> simp

variable {tree : ChosenWiring}

private theorem listed {part : ChosenWiring} (inside : part ∈ tree.subformulas) :
    part.wiring ∈ tree.wiring.subformulas := by
  rw [ChosenWiring.wiring, Formula.subformulas_map]
  exact List.mem_map_of_mem inside

private theorem secretNodes_chosen (tree : ChosenWiring) : tree.wiring.layout.secretNodes =
    tree.subformulas.flatMap fun part : ChosenWiring => part.wiring.partLayout.secretNodes := by
  rw [Wiring.secretNodes_eq, ChosenWiring.wiring, Formula.subformulas_map, List.flatMap_map]
  rfl

private theorem partSecrets_count (correct : Compiled policy compiled root tree.wiring) (part : ChosenWiring)
    (inside : part ∈ tree.subformulas) : part.partSecrets.length = part.wiring.partLayout.secretNodes.length :=
  part.partSecrets_length (correct.shape _ (listed inside))

/-- A choice of true leaves fills the declared inputs. -/
theorem exists_runs_of_choice (correct : Compiled policy compiled root tree.wiring) :
    ∃ value, compiled.circuit.Runs tree.secrets (tree.wiring.subformulas.flatMap partPublics) value := by
  apply correct.wellFormed.exists_runs
  · rw [correct.secretCount, secretNodes_chosen, ChosenWiring.secrets, List.length_flatMap, List.length_flatMap,
      List.map_congr_left correct.partSecrets_count]
  · rw [correct.publicCount, Wiring.publicNodes_eq, List.length_flatMap, List.length_flatMap,
      List.map_congr_left fun part _ => partPublics_length part]

/-- The secret inputs of a choice realize it: the leaves are as chosen, the
constraints vanish and the root carries the value of the chosen tree. -/
theorem choice_realized (correct : Compiled policy compiled root tree.wiring)
    (runs : compiled.circuit.Runs tree.secrets (tree.wiring.subformulas.flatMap partPublics) value) :
    (∀ entry ∈ tree.leaves, value entry.1.wire.asUsize = Formula.bit entry.2) ∧
      (∀ id ∈ tree.wiring.layout.constraints, value id.asUsize = 0) ∧
      value root.asUsize = Formula.bit (tree.eval Prod.snd) := by
  obtain ⟨held, whole, _⟩ := correct.runs_iff.mp runs
  rw [secretNodes_chosen, ChosenWiring.secrets, List.map_flatMap] at whole
  have secretsAt (part : ChosenWiring) (inside : part ∈ tree.subformulas) :
      part.partSecrets = part.wiring.partLayout.secretNodes.map value :=
    eq_of_flatMap_eq (fun part inside => by rw [correct.partSecrets_count part inside, List.length_map]) whole
      part inside
  have leaves : ∀ entry ∈ tree.leaves, value entry.1.wire.asUsize = Formula.bit entry.2 := by
    intro entry inside
    have found := Formula.mem_leaves.mp inside
    exact correct.leaf_chosen held (listed found) (secretsAt _ found).symm (correct.publics_at runs (listed found))
  have wires (part : ChosenWiring) (inside : part ∈ tree.subformulas) :
      part.wiring.valueAt value = Formula.bit (part.eval Prod.snd) := by
    rw [Wiring.valueAt, ChosenWiring.wiring, Formula.wire_map]
    refine Formula.wire_eq_bit_of_count Prod.snd fieldElement_wide (fun entry found => ?_)
      fun k nodes members found => ?_
    · exact leaves entry (Formula.mem_leaves.mpr (Formula.mem_subformulas_trans inside found))
    · have below := Formula.mem_subformulas_trans inside found
      have threshold := listed below
      rw [ChosenWiring.wiring_atLeast] at threshold
      refine ⟨by simpa using (correct.threshold_bounds threshold).2.2, fun _ => ?_⟩
      have solved := secretsAt _ below
      rw [ChosenWiring.wiring_atLeast] at solved
      exact (List.singleton_inj.mp solved).symm
  refine ⟨leaves, fun id member => ?_, ?_⟩
  · rw [Wiring.constraints_eq, List.mem_map] at member
    obtain ⟨nodes, threshold, rfl⟩ := member
    obtain ⟨k, members, inside⟩ := Wiring.mem_thresholds.mp threshold
    obtain ⟨discriminant, product, booleanity⟩ := correct.holds _ held _ inside
    have wire : value nodes.wire.asUsize = Wiring.valueAt value (.atLeast k nodes members) := by
      rw [product, discriminant, Wiring.valueAt, Formula.wire_atLeast]
      rfl
    rw [ChosenWiring.wiring, Formula.subformulas_map] at inside
    obtain ⟨part, chosen, same⟩ := List.mem_map.mp inside
    rw [booleanity, wire, ← same]
    rw [show Wiring.valueAt value (part.map Prod.fst id) = _ from wires part chosen]
    cases part.eval Prod.snd <;> simp
  · rw [correct.value _ held]
    exact wires tree (Formula.mem_subformulas_self _)

end Compiled

/-- Combinator soundness: secret inputs of any origin that make every published
constraint zero and the root one make every leaf wire boolean and the policy
true over its leaf wires; a credential wire is one exactly when its secret input
equals its public commitment. -/
theorem CompiledPolicy.combinator_soundness {policy : Policy} {compiled : CompiledPolicy FieldElement}
    (compiles : compileWithLayout policy = .ok compiled) {secrets publics values : List FieldElement}
    (evaluated : evalAllNodes compiled.circuit secrets publics = .ok values)
    (accepted : compiled.circuit.outputs.map (fun id => inputAt values id.asUsize) =
      List.replicate compiled.rangeCheckOutputs 0 ++ [1]) :
    ∃ (root : NodeId) (wiring : Wiring) (final : Compiler FieldElement),
      Compiler.wirePolicy policy.normalizeNode Compiler.new = .ok ((root, wiring), final) ∧
        wiring.map LeafWiring.leaf (fun _ => ()) = policy.normalizeNode.formula ∧
        (∀ leaf ∈ wiring.leaves, inputAt values leaf.wire.asUsize = 0 ∨ inputAt values leaf.wire.asUsize = 1) ∧
        wiring.eval (fun leaf => decide (inputAt values leaf.wire.asUsize = 1)) = true ∧
        policy.formula.eval (fun label => wiring.leaves.any fun leaf =>
          decide (leaf.leaf = label) && decide (inputAt values leaf.wire.asUsize = 1)) = true ∧
        ∀ id secret commitment wire, .credential id secret commitment wire ∈ wiring.leaves →
          compiled.circuit.isSecretInput secret.asUsize = true ∧
            compiled.circuit.isPublicInput commitment.asUsize = true ∧
            (inputAt values wire.asUsize = 1 ↔ inputAt values secret.asUsize = inputAt values commitment.asUsize) := by
  obtain ⟨root, wiring, correct⟩ := compileWithLayout_ok compiles
  obtain ⟨final, emitted⟩ := correct.emitted
  have held := ((evalAllNodes_ok_iff correct.wellFormed).mp evaluated).2.2.2.satisfies
  rw [correct.outputs, correct.rangeCheckOutputs, List.map_append] at accepted
  obtain ⟨zeros, one⟩ := List.append_inj accepted (by simp)
  have constraints : ∀ id ∈ wiring.layout.constraints, inputAt values id.asUsize = 0 := by
    intro id member
    exact List.eq_of_mem_replicate (zeros ▸ List.mem_map_of_mem member)
  have holds := correct.eval_of_root held constraints (List.singleton_inj.mp one)
  refine ⟨root, wiring, final, emitted, correct.formula, ?_, holds, ?_, ?_⟩
  · intro leaf inside
    exact correct.leaf_isBoolean held (Formula.mem_leaves.mp inside)
  · rw [← correct.eval_leaf]
    refine Formula.eval_mono (fun leaf inside true => ?_) holds
    rw [List.any_eq_true]
    exact ⟨leaf, Formula.mem_leaves.mpr inside, by simpa using true⟩
  · intro id secret commitment wire inside
    have listed := Formula.mem_leaves.mp inside
    obtain ⟨secretInput, publicInput⟩ := correct.credential_inputs listed
    exact ⟨secretInput, publicInput, correct.credential_eq_one_iff held listed⟩

/-- One credential together with one of two others. -/
def Policy.cosigned : Policy :=
  .and [.credential (.filled 1), .threshold ⟨1⟩ [.credential (.filled 2), .credential (.filled 3)]]

private theorem Compiled.cosigned_wiring {compiled : CompiledPolicy FieldElement} {root : NodeId} {wiring : Wiring}
    (correct : Compiled Policy.cosigned compiled root wiring) :
    ∃ first second third nodes, wiring = .all [.leaf first, .atLeast 1 nodes [.leaf second, .leaf third]] ∧
      first.leaf = .credential (.filled 1) ∧ second.leaf = .credential (.filled 2) ∧
        third.leaf = .credential (.filled 3) := by
  have formula := correct.formula
  rw [show Policy.cosigned.normalizeNode.formula = .all [.leaf (.credential (.filled 1)),
    .atLeast 1 () [.leaf (.credential (.filled 2)), .leaf (.credential (.filled 3))]] from rfl] at formula
  simp only [Formula.map_eq_all_iff, List.map_eq_cons_iff, List.map_eq_nil_iff, Formula.map_eq_atLeast_iff,
    Formula.map_eq_leaf_iff] at formula
  grind

/-- Secret inputs that leave the last credential of a cosigned policy unmatched,
accepted with one constraint and one auxiliary input. -/
theorem CompiledPolicy.combinator_soundness_cosigned :
    ∃ (compiled : CompiledPolicy FieldElement) (secrets publics values : List FieldElement),
      compileWithLayout Policy.cosigned = .ok compiled ∧
        compiled.rangeCheckOutputs = 1 ∧ SecretSlot.auxiliary ∈ compiled.secretSlots ∧
        evalAllNodes compiled.circuit secrets publics = .ok values ∧
        compiled.circuit.outputs.map (fun id => inputAt values id.asUsize) = [0, 1] ∧
        ∃ (root : NodeId) (wiring : Wiring) (final : Compiler FieldElement),
          Compiler.wirePolicy Policy.cosigned.normalizeNode Compiler.new = .ok ((root, wiring), final) ∧
            wiring.leaves.map (fun leaf => (leaf.leaf, inputAt values leaf.wire.asUsize)) =
              [(.credential (.filled 1), 1), (.credential (.filled 2), 1), (.credential (.filled 3), 0)] ∧
            wiring.eval (fun leaf => decide (inputAt values leaf.wire.asUsize = 1)) = true := by
  obtain ⟨compiled, compiles⟩ := @compileWithLayout_succeeds Policy.cosigned (by decide)
  obtain ⟨root, wiring, correct⟩ := compileWithLayout_ok compiles
  obtain ⟨first, second, third, nodes, rfl, label, label', label''⟩ := correct.cosigned_wiring
  obtain ⟨tree, defined⟩ : ∃ tree : ChosenWiring, tree =
      .all [.leaf (first, true), .atLeast 1 nodes [.leaf (second, true), .leaf (third, false)]] := ⟨_, rfl⟩
  have same : tree.wiring = .all [.leaf first, .atLeast 1 nodes [.leaf second, .leaf third]] := by
    simp [defined, ChosenWiring.wiring]
  rw [← same] at correct
  obtain ⟨value, runs⟩ := correct.exists_runs_of_choice
  obtain ⟨secretCount, publicCount, _⟩ := (Circuit.runs_iff correct.wellFormed).mp runs
  obtain ⟨values, evaluated⟩ := exists_evalAllNodes correct.wellFormed secretCount publicCount
  have runs := correct.evalAllNodes_runs evaluated
  obtain ⟨read, zeros, one⟩ := correct.choice_realized runs
  have constraints : tree.wiring.layout.constraints = [nodes.booleanity] := by
    rw [same, Wiring.constraints_eq]
    rfl
  rw [constraints, List.forall_mem_singleton] at zeros
  have accepted : compiled.circuit.outputs.map (fun id => inputAt values id.asUsize) = [0, 1] := by
    rw [correct.outputs, constraints, List.map_append, List.map_singleton, List.map_singleton, zeros, one, defined]
    simp
  have counted : compiled.rangeCheckOutputs = 1 := by rw [correct.rangeCheckOutputs, constraints, List.length_singleton]
  have auxiliary : SecretSlot.auxiliary ∈ compiled.secretSlots := by
    have slot : true ∈ compiled.secretSlots.map SecretSlot.isAuxiliary := by
      rw [correct.auxiliarySlots, same]
      simp [Wiring.layout, Wiring.partLayout, Layout.add_def]
    obtain ⟨slot, member, marked⟩ := List.mem_map.mp slot
    cases slot <;> cases marked
    exact member
  obtain ⟨root', wiring', final, emitted, _, _, holds, _⟩ :=
    CompiledPolicy.combinator_soundness compiles evaluated (by rw [counted]; exact accepted)
  obtain ⟨final', emitted'⟩ := correct.emitted
  obtain ⟨⟨rfl, rfl⟩, rfl⟩ : (root = root' ∧ tree.wiring = wiring') ∧ final' = final := by
    simpa using emitted'.symm.trans emitted
  refine ⟨compiled, _, _, values, compiles, counted, auxiliary, evaluated, accepted, root, _, _, emitted, ?_, holds⟩
  have carried : inputAt values first.wire.asUsize = 1 ∧ inputAt values second.wire.asUsize = 1 ∧
      inputAt values third.wire.asUsize = 0 := by
    simpa [defined, Formula.leaves] using read
  rw [same]
  simp [Formula.leaves, label, label', label'', carried]

end PaymentAuth
