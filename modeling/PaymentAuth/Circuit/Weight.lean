import Mathlib.Algebra.BigOperators.Group.List.Basic
import PaymentAuth.Circuit.Basic

/-! The bytes that the nodes of a circuit take in the view of a party. -/

namespace PaymentAuth

variable {F : Type}

/-- Whether a node is a constant. -/
def Node.isConstant : Node F → Bool
  | .constant _ => true
  | _ => false

/-- The bytes that a view takes at most for a node, given the nodes before it: a product
with a constant is recorded without masks. -/
def viewWeight (before : List (Node F)) : Node F → ℕ
  | .secretInput => 32
  | .publicInput | .constant _ => 0
  | .add _ _ => 37
  | .mul a b => if before[a.asUsize]?.any Node.isConstant || before[b.asUsize]?.any Node.isConstant then 69 else 265

/-- The bytes that a view takes at most for a list of nodes. -/
def viewWeights (nodes : List (Node F)) : ℕ :=
  ((List.range nodes.length).map fun n => nodes[n]?.elim 0 (viewWeight (nodes.take n))).sum

theorem viewWeights_concat (nodes : List (Node F)) (node : Node F) :
    viewWeights (nodes ++ [node]) = viewWeights nodes + viewWeight nodes node := by
  have before (n : ℕ) (small : n ∈ List.range nodes.length) :
      (nodes ++ [node])[n]?.elim 0 (viewWeight ((nodes ++ [node]).take n)) =
        nodes[n]?.elim 0 (viewWeight (nodes.take n)) := by
    have earlier := List.mem_range.mp small
    rw [List.getElem?_append_left earlier, List.take_append_of_le_length earlier.le]
  rw [viewWeights, List.length_append, List.length_singleton, List.range_succ, List.map_append, List.sum_append,
    List.map_congr_left before, viewWeights]
  simp

theorem viewWeight_mul_le (before : List (Node F)) (a b : NodeId) : viewWeight before (.mul a b) ≤ 265 := by
  rw [viewWeight]
  split
  · exact Nat.le_of_ble_eq_true rfl
  · exact Nat.le_refl _

end PaymentAuth
