import PaymentAuth.Payment.Wiring
import PaymentAuth.Policy.Filling

/-! The verifier's public inputs, recomputed from the policy alone, are those
that filling the policy's wiring gives. -/

namespace PaymentAuth

open Library

/-- Slots in the order of the leaves take each leaf's own id or limit. -/
theorem publicInputsOf_ok {leaves : List PolicyLeaf} {slots : List PublicSlot}
    (aligned : slots.map PublicSlot.isAmountLimit = leaves.map fun leaf => leaf.limit?.isSome) :
    publicInputsOf slots (leaves.filterMap PolicyLeaf.credential?) (leaves.filterMap PolicyLeaf.limit?) =
      .ok (leaves.flatMap leafPublics) := by
  induction leaves generalizing slots with
  | nil =>
    rw [List.map_nil, List.map_eq_nil_iff] at aligned
    subst aligned
    rfl
  | cons leaf rest ih =>
    cases slots with
    | nil => cases aligned
    | cons slot slots =>
      rw [List.map_cons, List.map_cons, List.cons.injEq] at aligned
      obtain ⟨here, others⟩ := aligned
      have later := ih others
      cases leaf with
      | amountAtMost limit =>
        cases slot with
        | credentialCommitment index => cases here
        | amountLimit =>
          simp only [publicInputsOf, List.filterMap_cons, PolicyLeaf.credential?, PolicyLeaf.limit?, List.head?_cons,
            List.tail_cons, Outcome.okOr_some, Outcome.ok_bind, later]
          rfl
      | credential id =>
        cases slot with
        | amountLimit => cases here
        | credentialCommitment index =>
          simp only [publicInputsOf, List.filterMap_cons, PolicyLeaf.credential?, PolicyLeaf.limit?, List.head?_cons,
            List.tail_cons, Outcome.okOr_some, Outcome.ok_bind, later]
          rfl

namespace Wiring

theorem limitSlots_eq (wiring : Wiring) :
    wiring.layout.limitSlots = (wiring.leaves.map LeafWiring.leaf).map fun leaf => leaf.limit?.isSome := by
  have silent : ∀ part ∈ wiring.subformulas, (∀ leaf, part ≠ .leaf leaf) → (partLayout part).limitSlots = [] := by
    intro part _ inner
    cases part with
    | leaf leaf => exact absurd rfl (inner leaf)
    | atLeast | all | any => rfl
  rw [layout, Layout.sum_eq]
  simp only [List.flatMap_map, wiring.flatMap_subformulas silent, List.map_map]
  rw [← List.flatMap_singleton' (wiring.leaves.map _), List.flatMap_map]
  refine List.flatMap_congr fun leaf _ => ?_
  cases leaf <;> rfl

theorem flatMap_partPublics {p : ℕ} (wiring : Wiring) :
    (wiring.subformulas.flatMap partPublics : List (ZMod p)) =
      (wiring.leaves.map LeafWiring.leaf).flatMap leafPublics := by
  have silent : ∀ part ∈ wiring.subformulas, (∀ leaf, part ≠ .leaf leaf) →
      (partPublics part : List (ZMod p)) = [] := by
    intro part _ inner
    cases part with
    | leaf leaf => exact absurd rfl (inner leaf)
    | atLeast | all | any => rfl
  rw [wiring.flatMap_subformulas silent, List.flatMap_map]
  rfl

end Wiring

/-- The verifier finds the public inputs that the wiring declares. -/
theorem Compiled.policyPublicInputs_eq {policy : Policy} {compiled : CompiledPolicy FieldElement} {root : NodeId}
    {wiring : Wiring} (correct : Compiled policy compiled root wiring) :
    policyPublicInputs compiled policy = .ok (wiring.subformulas.flatMap partPublics) := by
  have leaves : policy.normalizeNode.formula.leaves = wiring.leaves.map LeafWiring.leaf := by
    rw [← correct.formula, Formula.leaves_map]
  have normalizes : policy.normalize.mapError (fun _ => PaymentError.invalidPolicy) = .ok policy.normalizeNode := rfl
  rw [policyPublicInputs, normalizes, Outcome.ok_bind, Policy.policyCredentialIds_eq, Policy.limits_eq, leaves,
    wiring.flatMap_partPublics]
  exact publicInputsOf_ok (correct.limitSlots.trans wiring.limitSlots_eq)

end PaymentAuth
