import PaymentAuth.Circuit.Weight
import PaymentAuth.Mpcith.Execution

/-! The bytes that the view of a party takes are bounded node by node. -/

namespace PaymentAuth

open Library

namespace Mpcith

variable {circuit : Circuit FieldElement}

/-- A constant does not depend on secrets, so a product with one needs no triple. -/
private theorem isSharedMul_of_constant (valid : circuit.WellFormed) {n : ℕ} {a b : NodeId}
    (found : circuit.nodes[n]? = some (.mul a b))
    (scaled : (circuit.nodes.take n)[a.asUsize]?.any Node.isConstant ||
      (circuit.nodes.take n)[b.asUsize]?.any Node.isConstant) : circuit.isSharedMul n = false := by
  have plain (id : NodeId) (constant : (circuit.nodes.take n)[id.asUsize]?.any Node.isConstant = true) :
      circuit.dependsOnSecrets id.asUsize = false := by
    obtain ⟨node, here, kind⟩ := (Option.any_eq_true _ _).mp constant
    have listed : circuit.nodes[id.asUsize]? = some node := by
      rw [List.getElem?_take] at here
      split at here
      · exact here
      · cases here
    cases node with
    | constant value => exact valid.dependsOnSecrets_solves _ _ listed
    | _ => cases kind
  simp only [Circuit.isSharedMul, found]
  rcases (Bool.or_eq_true _ _).mp scaled with left | right
  · rw [plain a left, Bool.false_and]
  · rw [plain b right, Bool.and_false]

/-- What a view records for one node. -/
private theorem recorded_le (valid : circuit.WellFormed) (party : PartyId) {n : ℕ} {node : Node FieldElement}
    (found : circuit.nodes[n]? = some node) :
    (32 * if node.isSecretInput then 1 else 0) + (if recordsOperation circuit party n then operationSize circuit n else 0) +
      (160 * if circuit.isSharedMul n then 1 else 0) ≤ viewWeight (circuit.nodes.take n) node := by
  cases node with
  | secretInput | publicInput | constant =>
    simp [recordsOperation_leaf found rfl, Circuit.isSharedMul_leaf found rfl, Node.isSecretInput, viewWeight]
  | add a b =>
    have once : circuit.isSharedMul n = false := by simp [Circuit.isSharedMul, found]
    cases recordsOperation circuit party n <;> simp [operationSize, found, once, Node.isSecretInput, viewWeight]
  | mul a b =>
    by_cases scaled : ((circuit.nodes.take n)[a.asUsize]?.any Node.isConstant ||
        (circuit.nodes.take n)[b.asUsize]?.any Node.isConstant) = true
    · have once := isSharedMul_of_constant valid found scaled
      rw [viewWeight, if_pos scaled]
      cases recordsOperation circuit party n <;> simp [operationSize, found, once, Node.isSecretInput]
    · rw [viewWeight, if_neg scaled]
      cases recordsOperation circuit party n <;> cases shared : circuit.isSharedMul n <;>
        simp [operationSize, found, shared, Node.isSecretInput]

/-- A view's message takes no more than the nodes of the circuit weigh. -/
theorem commitmentSize_le_viewWeights (valid : circuit.WellFormed) (party : PartyId) :
    commitmentSize circuit party ≤ 60 + viewWeights circuit.nodes := by
  have upTo (k : ℕ) (small : k ≤ circuit.nodes.length) :
      32 * circuit.secretRank k +
          ((marked (recordsOperation circuit party) k).map (operationSize circuit)).sum + 160 * circuit.tripleRank k ≤
        viewWeights (circuit.nodes.take k) := by
    induction k with
    | zero => exact Nat.zero_le _
    | succ k ih =>
      have before := ih (Nat.le_of_succ_le small)
      have found := List.getElem?_eq_getElem small
      have here := recorded_le valid party found
      have operations : ((marked (recordsOperation circuit party) (k + 1)).map (operationSize circuit)).sum =
          ((marked (recordsOperation circuit party) k).map (operationSize circuit)).sum +
            if recordsOperation circuit party k then operationSize circuit k else 0 := by
        cases records : recordsOperation circuit party k with
        | false => simp [marked_succ_of_not records]
        | true => simp [marked_succ_of records]
      rw [List.take_succ_eq_append_getElem small, viewWeights_concat, Circuit.secretRank_succ found, operations,
        Circuit.tripleRank_succ]
      omega
  have whole := upTo circuit.nodes.length (Nat.le_refl _)
  rw [List.take_length, valid.secretRank_length] at whole
  unfold commitmentSize Circuit.tripleCount
  omega

end Mpcith

end PaymentAuth
