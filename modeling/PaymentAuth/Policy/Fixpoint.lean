import PaymentAuth.Policy.Agreement

/-! The auxiliary inputs that building the inputs leaves: at every threshold, at
any depth, its own slot holds the inverse of its discriminant on these inputs. -/

namespace PaymentAuth

open Library

/-- The positions of the auxiliary inputs among the secret inputs, in order. -/
def CompiledPolicy.auxiliaryPositions {F : Type} (compiled : CompiledPolicy F) : List ℕ :=
  marked (fun i => compiled.secretSlots[i]? = some .auxiliary) compiled.secretSlots.length

/-- The inverse of a target, or zero where the target is zero. -/
def Inverts {F : Type} [Ring F] (target aux : F) : Prop :=
  (target ≠ 0 → aux * target = 1) ∧ (target = 0 → aux = 0)

theorem inverts_inv {F : Type} [Field F] (target : F) : Inverts target target⁻¹ := by
  constructor
  · intro nonzero
    exact inv_mul_cancel₀ nonzero
  · intro zero
    rw [zero, inv_zero]

section Slots

variable {p : ℕ} [Fact p.Prime] {policy : Policy} {compiled : CompiledPolicy (ZMod p)} {root : NodeId}
  {wiring : Wiring}

/-- An auxiliary input of a compiled policy, tied to its threshold: slot `i` is the
`j`-th auxiliary slot, the `j`-th target is the discriminant, and the secret input
at `i` is the auxiliary wire. -/
structure OwnSlot (compiled : CompiledPolicy (ZMod p)) (nodes : ThresholdWiring) (j i : ℕ) : Prop where
  position : compiled.auxiliaryPositions[j]? = some i
  target : compiled.auxiliaryTargets[j]? = some nodes.discriminant
  input : (marked compiled.circuit.isSecretInput compiled.circuit.nodes.length)[i]? = some nodes.auxiliary.asUsize

/-- One node of a wiring flags an auxiliary slot exactly for its own threshold. -/
private theorem flagged_part {part : Wiring} :
    flagged part.partLayout.auxiliarySlots part.partLayout.secretNodes =
      part.threshold?.toList.map fun nodes => some nodes.auxiliary.asUsize := by
  cases part with
  | leaf leaf =>
    apply flagged_eq_nil
    intro flag member
    cases leaf with
    | amount limit inputs wire =>
      rcases List.mem_cons.mp member with first | digit
      · exact first
      · obtain ⟨_, _, plain⟩ := List.mem_map.mp digit
        exact plain.symm
    | credential => exact List.mem_singleton.mp member
  | atLeast => rfl
  | all | any => rfl

private theorem flagged_parts (parts : List Wiring) :
    (parts.flatMap fun part => part.partLayout.auxiliarySlots).length =
        (parts.flatMap fun part => part.partLayout.secretNodes).length ∧
      flagged (parts.flatMap fun part => part.partLayout.auxiliarySlots)
          (parts.flatMap fun part => part.partLayout.secretNodes) =
        (parts.filterMap Wiring.threshold?).map fun nodes => some nodes.auxiliary.asUsize := by
  induction parts with
  | nil => exact ⟨rfl, rfl⟩
  | cons part rest ih =>
    have same : part.partLayout.auxiliarySlots.length = part.partLayout.secretNodes.length := by
      cases part with
      | leaf leaf => cases leaf <;> simp [Wiring.partLayout]
      | atLeast | all | any => rfl
    obtain ⟨lengths, others⟩ := ih
    constructor
    · rw [List.flatMap_cons, List.flatMap_cons, List.length_append, List.length_append, same, lengths]
    · rw [List.flatMap_cons, List.flatMap_cons, flagged_append same, flagged_part, others]
      cases part with
      | leaf | all | any => simp [Wiring.threshold?, List.filterMap_cons]
      | atLeast => simp [Wiring.threshold?]

/-- The auxiliary slots of a compiled policy stand where its thresholds read them. -/
theorem Compiled.placed_auxiliaryPositions (correct : Compiled policy compiled root wiring) :
    Placed wiring compiled.auxiliaryPositions := by
  have flags : wiring.layout.auxiliarySlots =
      wiring.subformulas.flatMap fun part : Wiring => part.partLayout.auxiliarySlots := by
    rw [Wiring.layout, Layout.sum_eq]
    exact List.flatMap_map _ _ _
  have positions : compiled.auxiliaryPositions =
      marked (fun n => decide (wiring.layout.auxiliarySlots[n]? = some true)) wiring.layout.auxiliarySlots.length := by
    rw [← correct.auxiliarySlots, List.length_map]
    apply marked_congr
    intro n _
    apply decide_eq_decide.mpr
    rw [List.getElem?_map, Option.map_eq_some_iff]
    constructor
    · intro found
      exact ⟨_, found, rfl⟩
    · rintro ⟨slot, found, chosen⟩
      cases slot <;> cases chosen
      exact found
  have whole := (flagged_parts wiring.subformulas).2
  rw [← flags, ← wiring.secretNodes_eq, flagged, ← positions] at whole
  exact whole

theorem Compiled.auxiliaryPositions_length (correct : Compiled policy compiled root wiring) :
    compiled.auxiliaryPositions.length = compiled.auxiliaryTargets.length := by
  have counts := congrArg List.length correct.placed_auxiliaryPositions
  rw [List.length_map, List.length_map] at counts
  rw [correct.targets, wiring.targets_eq, List.length_map, counts]

/-- Every threshold has its own slot. -/
theorem Compiled.exists_ownSlot (correct : Compiled policy compiled root wiring) {nodes : ThresholdWiring}
    (listed : nodes ∈ wiring.thresholds) : ∃ j i, OwnSlot compiled nodes j i := by
  obtain ⟨j, found⟩ := List.mem_iff_getElem?.mp listed
  have here := congrArg (fun list : List (Option ℕ) => list[j]?) correct.placed_auxiliaryPositions
  rw [List.getElem?_map, List.getElem?_map, found, Option.map_some, Option.map_eq_some_iff] at here
  obtain ⟨i, position, input⟩ := here
  refine ⟨j, i, position, ?_, ?_⟩
  · rw [correct.targets, wiring.targets_eq, List.getElem?_map, found, Option.map_some]
  · rw [correct.secretNodes, input]

end Slots

section Fixpoint

variable {p : ℕ} [Fact p.Prime] {policy : Policy} {compiled : CompiledPolicy (ZMod p)} {witness : PolicyWitness}

/-- The auxiliary input of one threshold is solved: its own slot holds the inverse
of its discriminant, which is read from the values of the same inputs. -/
def SolvedThreshold (compiled : CompiledPolicy (ZMod p)) (secrets values : List (ZMod p)) (k : ℕ)
    (nodes : ThresholdWiring) (members : List Wiring) : Prop :=
  ∃ j i target aux, OwnSlot compiled nodes j i ∧
    values[nodes.discriminant.asUsize]? = some target ∧
    target = Formula.discriminant k (members.map (Wiring.valueAt (inputAt values))).sum ∧
    secrets[i]? = some aux ∧ Inverts target aux

/-- Building the inputs of a covered policy ends with every threshold solved on the
inputs it returns, whatever round it stops after. -/
theorem CompiledPolicy.buildInputs_fixpoint (sha256 : Bytes → Digest)
    (compiles : compileWithLayout policy = .ok compiled) (covered : witness.Covers policy) :
    ∃ root wiring secrets publics values, Compiled policy compiled root wiring ∧
      compiled.buildInputs sha256 policy witness = .ok (secrets, publics) ∧
      evalAllNodes compiled.circuit secrets publics = .ok values ∧
      compiled.auxiliaryPositions.length = compiled.auxiliaryTargets.length ∧
      compiled.auxiliaryTargets.length = wiring.thresholds.length ∧
      ∀ k nodes members, .atLeast k nodes members ∈ wiring.subformulas →
        SolvedThreshold compiled secrets values k nodes members := by
  obtain ⟨root, wiring, correct⟩ := compileWithLayout_ok compiles
  obtain ⟨secrets, publics, values, built, prepared, settled⟩ := correct.buildInputs_ok sha256 covered
  refine ⟨root, wiring, secrets, publics, values, correct, built, prepared.evaluated,
    correct.auxiliaryPositions_length, ?_, ?_⟩
  · rw [correct.targets, wiring.targets_eq, List.length_map]
  · intro k nodes members inside
    have listed : nodes ∈ wiring.thresholds := Wiring.mem_thresholds.mpr ⟨k, members, inside⟩
    obtain ⟨j, i, own⟩ := correct.exists_ownSlot listed
    have size := ((evalAllNodes_ok_iff correct.wellFormed).mp prepared.evaluated).2.2.1
    have defined : nodes.discriminant.asUsize < values.length := by
      rw [size]
      exact correct.solvable _ (List.mem_of_getElem? own.target)
    have input := own.input
    rw [correct.secretNodes] at input
    refine ⟨j, i, inputAt values nodes.discriminant.asUsize, inputAt values nodes.auxiliary.asUsize, own,
      inputAt_of_lt defined, (correct.holds _ (prepared.satisfies correct) _ inside).1, ?_, ?_⟩
    · rw [(correct.inputs_eq prepared.evaluated).1, List.getElem?_map, input, Option.map_some]
    · rw [settled nodes listed]
      exact inverts_inv _

/-- A threshold inside a threshold, over a witness without an amount. -/
theorem CompiledPolicy.buildInputs_fixpoint_nested :
    ∃ (policy : Policy) (compiled : CompiledPolicy FieldElement) (root : NodeId) (wiring : Wiring)
      (secrets publics values : List FieldElement),
      policy = .threshold ⟨2⟩ [.credential (credentialOf [7]),
        .threshold ⟨1⟩ [.credential (.filled 2), .amountAtMost ⟨5⟩]] ∧
        Compiled policy compiled root wiring ∧
        compiled.buildInputs PaymentAuth.sha256 policy ⟨[(credentialOf [7], [7]), (.filled 2, [])], none⟩ =
          .ok (secrets, publics) ∧
        ∀ k nodes members, .atLeast k nodes members ∈ wiring.subformulas →
          SolvedThreshold compiled secrets values k nodes members := by
  let policy : Policy := .threshold ⟨2⟩ [.credential (credentialOf [7]),
    .threshold ⟨1⟩ [.credential (.filled 2), .amountAtMost ⟨5⟩]]
  let witness : PolicyWitness := ⟨[(credentialOf [7], [7]), (.filled 2, [])], none⟩
  obtain ⟨compiled, compiles⟩ := @compileWithLayout_succeeds policy (by decide +kernel)
  have covered : witness.Covers policy := by
    intro id listed
    have known := (policy.collectRequirements_iff.1 id).mpr listed
    have each : ∀ id ∈ policy.collectRequirements.1, (witness.secretFor id).isSome = true := by decide +kernel
    exact Option.isSome_iff_exists.mp (each id known)
  obtain ⟨root, wiring, secrets, publics, values, correct, built, _, _, _, solved⟩ :=
    CompiledPolicy.buildInputs_fixpoint PaymentAuth.sha256 compiles covered
  exact ⟨policy, compiled, root, wiring, secrets, publics, values, rfl, correct, built, solved⟩

end Fixpoint

end PaymentAuth
