import Mathlib.Logic.Relation
import PaymentAuth.Circuit.Evaluation

namespace PaymentAuth.Circuit

open Library

variable {F : Type} {circuit : Circuit F}

/-- The dependence of nodes on secret inputs. -/
def dependence : Interpretation F Bool where
  secretInput _ := true
  publicInput _ := false
  constant _ := false
  add _ left right := left || right
  mul _ left right := left || right

/-- Whether a node's value depends on at least one secret input. -/
def dependsOnSecrets (circuit : Circuit F) (n : ℕ) : Bool := circuit.valueOf dependence false n

theorem WellFormed.dependsOnSecrets_solves (valid : circuit.WellFormed) :
    circuit.Solves dependence circuit.dependsOnSecrets :=
  valid.valueOf_solves dependence false

/-- The dependence of a gate is that of either operand. -/
theorem WellFormed.dependsOnSecrets_gate (valid : circuit.WellFormed) {n : ℕ} {node : Node F} {a b : NodeId}
    (found : circuit.nodes[n]? = some node) (gate : node.operands = some (a, b)) :
    circuit.dependsOnSecrets n =
      (circuit.dependsOnSecrets a.asUsize || circuit.dependsOnSecrets b.asUsize) := by
  have solved := valid.dependsOnSecrets_solves n node found
  cases node <;> cases gate <;> exact solved

/-- The value of a node that depends on no secret input. -/
def publicValue [CommRing F] (circuit : Circuit F) (publics : ℕ → F) (n : ℕ) : F :=
  circuit.valueOf (circuit.plaintext (fun _ => 0) publics) 0 n

/-- Whether a node multiplies two values that both depend on secrets. -/
def isSharedMul (circuit : Circuit F) (n : ℕ) : Bool :=
  match circuit.nodes[n]? with
  | some (.mul a b) => circuit.dependsOnSecrets a.asUsize && circuit.dependsOnSecrets b.asUsize
  | _ => false

theorem isSharedMul_leaf {n : ℕ} {node : Node F} (found : circuit.nodes[n]? = some node)
    (leaf : node.operands = none) : circuit.isSharedMul n = false := by
  cases node <;> cases leaf <;> simp [isSharedMul, found]

/-- The number of multiplications of two secret-dependent values before a position. -/
def tripleRank (circuit : Circuit F) (n : ℕ) : ℕ := rank circuit.isSharedMul n

theorem tripleRank_succ (circuit : Circuit F) (n : ℕ) :
    circuit.tripleRank (n + 1) = circuit.tripleRank n + if circuit.isSharedMul n then 1 else 0 :=
  rank_succ

/-- The number of Beaver triples an execution of the circuit consumes. -/
def tripleCount (circuit : Circuit F) : ℕ := circuit.tripleRank circuit.nodes.length

end PaymentAuth.Circuit
