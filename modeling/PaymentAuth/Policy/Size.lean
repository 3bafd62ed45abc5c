import PaymentAuth.Policy.Gadgets

/-! How many nodes a policy takes, and what they weigh. -/

namespace PaymentAuth

open Library

namespace Compiler

/-- The sum of a table over the nodes of a policy. -/
def total (table : Formula PolicyLeaf Unit → ℕ) (policy : Policy) : ℕ := (policy.formula.subformulas.map table).sum

/-- The nodes that one node of a policy takes. -/
def nodeSize (p : ℕ) : Formula PolicyLeaf Unit → ℕ
  | .leaf (.amountAtMost _) => 4 * fermatCost p + (20 * amountBitLen + 36)
  | .leaf (.credential _) => fermatCost p + 9
  | .atLeast k _ members => (members.length - 1) + (2 * k + (k - 1)) + 7
  | .all members => members.length - 1
  | .any members => 5 * (members.length - 1)

/-- The nodes that a whole policy takes. -/
def policySize (p : ℕ) (policy : Policy) : ℕ := total (nodeSize p) policy

/-- What the nodes that one node of a policy takes weigh at most. -/
def nodeWeight (p : ℕ) : Formula PolicyLeaf Unit → ℕ
  | .leaf (.amountAtMost _) => 4 * (265 * fermatCost p + 371) + 70238
  | .leaf (.credential _) => 265 * fermatCost p + 244
  | .atLeast k _ members => 37 * (members.length - 1) + 302 * k + 668
  | .all members => 265 * (members.length - 1)
  | .any members => 408 * (members.length - 1)

/-- What the nodes that a whole policy takes weigh at most. -/
def policyWeight (p : ℕ) (policy : Policy) : ℕ := total (nodeWeight p) policy

section Tables

variable (table : Formula PolicyLeaf Unit → ℕ) (members : List Policy)

private theorem total_threshold (k : ThresholdK) : total table (.threshold k members) =
    (members.map (total table)).sum + table (.atLeast k.get.toNat () (members.map Policy.formula)) := by
  rw [total, Policy.formula_threshold, Formula.sum_atLeast, List.map_map]
  rfl

private theorem total_make (combinator : Combinator) : total table (combinator.make members) =
    (members.map (total table)).sum + table (combinator.node (members.map Policy.formula)) := by
  rw [total, combinator.formula_make, Formula.sum_node table (combinator.subformulas_node _), List.map_map]
  rfl

theorem policySize_amountAtMost (p : ℕ) (limit : AmountLimit) :
    policySize p (.amountAtMost limit) = 4 * fermatCost p + (20 * amountBitLen + 36) := by
  rw [policySize, total, Policy.formula_amountAtMost, Formula.sum_leaf, nodeSize]

theorem policySize_credential (p : ℕ) (id : CredentialId) : policySize p (.credential id) = fermatCost p + 9 := by
  rw [policySize, total, Policy.formula_credential, Formula.sum_leaf, nodeSize]

theorem policySize_threshold (p : ℕ) (k : ThresholdK) : policySize p (.threshold k members) =
    (members.map (policySize p)).sum + ((members.length - 1) + (2 * k.get.toNat + (k.get.toNat - 1)) + 7) := by
  rw [policySize, total_threshold, nodeSize, List.length_map]
  rfl

theorem policySize_make (p : ℕ) (combinator : Combinator) : policySize p (combinator.make members) =
    (members.map (policySize p)).sum + (members.length - 1) * combineCost combinator := by
  have whole : policySize p (combinator.make members) = (members.map (policySize p)).sum + _ :=
    total_make (nodeSize p) members combinator
  cases combinator with
  | and | or => simpa [Combinator.node, nodeSize, combineCost, Nat.mul_comm] using whole

theorem policyWeight_amountAtMost (p : ℕ) (limit : AmountLimit) : policyWeight p (.amountAtMost limit) =
    4 * (265 * fermatCost p + 371) + 70238 := by
  rw [policyWeight, total, Policy.formula_amountAtMost, Formula.sum_leaf, nodeWeight]

theorem policyWeight_credential (p : ℕ) (id : CredentialId) :
    policyWeight p (.credential id) = 265 * fermatCost p + 244 := by
  rw [policyWeight, total, Policy.formula_credential, Formula.sum_leaf, nodeWeight]

theorem policyWeight_threshold (p : ℕ) (k : ThresholdK) : policyWeight p (.threshold k members) =
    (members.map (policyWeight p)).sum + (37 * (members.length - 1) + 302 * k.get.toNat + 668) := by
  rw [policyWeight, total_threshold, nodeWeight, List.length_map]
  rfl

theorem policyWeight_make (p : ℕ) (combinator : Combinator) : policyWeight p (combinator.make members) =
    (members.map (policyWeight p)).sum + (members.length - 1) * combineWeight combinator := by
  have whole : policyWeight p (combinator.make members) = (members.map (policyWeight p)).sum + _ :=
    total_make (nodeWeight p) members combinator
  cases combinator with
  | and | or => simpa [Combinator.node, nodeWeight, combineWeight, Nat.mul_comm] using whole

end Tables

section Bounds

/-- The multiplications of the exact indicator over the field of the circuits. -/
theorem fermatCost_fieldOrder : fermatCost fieldOrder = 323 := by decide +kernel

theorem nodeSize_le {node : Formula PolicyLeaf Unit} (valid : Policy.NodeValid node) :
    nodeSize fieldOrder node ≤ 5000 := by
  cases node with
  | leaf leaf =>
    cases leaf with
    | amountAtMost | credential =>
      rw [nodeSize, fermatCost_fieldOrder]
      decide
  | atLeast k label members =>
    obtain ⟨_, few, small⟩ := valid
    rw [maxThresholdMembers] at small
    rw [nodeSize]
    omega
  | all members | any members =>
    have small := valid.2
    rw [maxCombinatorChildren] at small
    rw [nodeSize]
    omega

theorem nodeWeight_le {node : Formula PolicyLeaf Unit} (valid : Policy.NodeValid node) :
    nodeWeight fieldOrder node ≤ 414102 := by
  cases node with
  | leaf leaf =>
    cases leaf with
    | amountAtMost => rw [nodeWeight, fermatCost_fieldOrder]
    | credential =>
      rw [nodeWeight, fermatCost_fieldOrder]
      decide
  | atLeast k label members =>
    obtain ⟨_, few, small⟩ := valid
    rw [maxThresholdMembers] at small
    rw [nodeWeight]
    omega
  | all members | any members =>
    have small := valid.2
    rw [maxCombinatorChildren] at small
    rw [nodeWeight]
    omega

variable {policy : Policy}

private theorem total_le {table : Formula PolicyLeaf Unit → ℕ} {bound : ℕ} (valid : policy.Valid)
    (each : ∀ node, Policy.NodeValid node → table node ≤ bound) : total table policy ≤ maxPolicyNodes * bound := by
  have costs : ∀ cost ∈ policy.formula.subformulas.map table, cost ≤ bound := by
    simpa using fun node inside => each node (valid.each node inside)
  calc
    total table policy ≤ policy.formula.subformulas.length * bound := by
      simpa [total] using List.sum_le_card_nsmul _ _ costs
    _ ≤ maxPolicyNodes * bound := Nat.mul_le_mul_right _ valid.nodes

/-- A valid policy takes few nodes, whatever its shape. -/
theorem policySize_le (valid : policy.Valid) : policySize fieldOrder policy ≤ maxPolicyNodes * 5000 :=
  total_le valid fun _ => nodeSize_le

theorem policyWeight_le (valid : policy.Valid) : policyWeight fieldOrder policy ≤ maxPolicyNodes * 414102 :=
  total_le valid fun _ => nodeWeight_le

end Bounds

end Compiler

end PaymentAuth
