import PaymentAuth.Library.Marked
import PaymentAuth.Library.Outcome

namespace PaymentAuth

open Library

/-- Identifies a node within a single circuit by its position. -/
structure NodeId where
  get : UInt32
deriving DecidableEq, Repr

/-- Returns the underlying index. -/
def NodeId.asUsize (id : NodeId) : ℕ := id.get.toNat

/-- `NodeId::new(index as u32)`: the cast keeps the low 32 bits. -/
def NodeId.ofIndex (index : ℕ) : NodeId := ⟨UInt32.ofNat index⟩

theorem NodeId.asUsize_ofIndex {index : ℕ} (small : index < 2 ^ 32) :
    (NodeId.ofIndex index).asUsize = index :=
  UInt32.toNat_ofNat_of_lt small

/-- One step of an arithmetic circuit over the field `F`. -/
inductive Node (F : Type) where
  | secretInput
  | publicInput
  | constant (value : F)
  | add (a b : NodeId)
  | mul (a b : NodeId)
deriving DecidableEq, Repr

variable {F : Type}

/-- The operand ids of a binary gate. -/
def Node.operands : Node F → Option (NodeId × NodeId)
  | .add a b | .mul a b => some (a, b)
  | .secretInput | .publicInput | .constant _ => none

def Node.isSecretInput : Node F → Bool
  | .secretInput => true
  | _ => false

def Node.isPublicInput : Node F → Bool
  | .publicInput => true
  | _ => false

inductive CircuitError where
  | invalidReference
  | forwardReference
  | missingOutput
  | invalidInputCount
  | malformedNode
  | mpcFault
  | unsupportedVersion
  | trailingBytes
  | unexpectedEnd
  | excessiveSize
deriving DecidableEq, Repr

/-- An ordered list of arithmetic nodes with declared input counts and outputs. -/
structure Circuit (F : Type) where
  nodes : List (Node F)
  numSecretInputs : ℕ
  numPublicInputs : ℕ
  outputs : List NodeId
deriving DecidableEq

namespace Circuit

/-- An operand must name an existing node, and an earlier one. -/
def checkOperand (size index : ℕ) (operand : NodeId) : Outcome CircuitError Unit := do
  Outcome.reject (operand.asUsize ≥ size) .invalidReference
  Outcome.reject (operand.asUsize ≥ index) .forwardReference

def checkOperands (size : ℕ) : Node F × ℕ → Outcome CircuitError Unit
  | (node, index) =>
    match node.operands with
    | none => .ok ()
    | some (a, b) => do
      checkOperand size index a
      checkOperand size index b

/-- Checks all structural invariants of the circuit. -/
def validate (circuit : Circuit F) : Outcome CircuitError Unit := do
  forM circuit.nodes.zipIdx (checkOperands circuit.nodes.length)
  let secretLeaves := circuit.nodes.countP Node.isSecretInput
  let publicLeaves := circuit.nodes.countP Node.isPublicInput
  Outcome.reject
    (secretLeaves ≠ circuit.numSecretInputs ∨ publicLeaves ≠ circuit.numPublicInputs)
    .invalidInputCount
  Outcome.reject (circuit.outputs.isEmpty = true) .missingOutput
  forM circuit.outputs fun output =>
    Outcome.reject (output.asUsize ≥ circuit.nodes.length) .invalidReference

/-- The structural invariants that validation establishes. -/
structure WellFormed (circuit : Circuit F) : Prop where
  operands : ∀ (n : ℕ) (node : Node F) (a b : NodeId), circuit.nodes[n]? = some node →
    node.operands = some (a, b) → a.asUsize < n ∧ b.asUsize < n
  secretInputs : circuit.nodes.countP Node.isSecretInput = circuit.numSecretInputs
  publicInputs : circuit.nodes.countP Node.isPublicInput = circuit.numPublicInputs
  outputs_ne_nil : circuit.outputs ≠ []
  outputs : ∀ id ∈ circuit.outputs, id.asUsize < circuit.nodes.length

private theorem checkOperand_ok_iff {size index : ℕ} {operand : NodeId} (bound : index < size)
    {result : Unit} : checkOperand size index operand = .ok result ↔ operand.asUsize < index := by
  simp only [checkOperand, Outcome.bind_ok_iff, Outcome.reject_ok_iff, exists_const]
  omega

theorem validate_ok_iff {circuit : Circuit F} {result : Unit} :
    circuit.validate = .ok result ↔ circuit.WellFormed := by
  have gates : (∀ entry ∈ circuit.nodes.zipIdx,
      checkOperands circuit.nodes.length entry = .ok ⟨⟩) ↔
      ∀ (n : ℕ) (node : Node F) (a b : NodeId), circuit.nodes[n]? = some node →
        node.operands = some (a, b) → a.asUsize < n ∧ b.asUsize < n := by
    simp only [Prod.forall, List.mk_mem_zipIdx_iff_getElem?]
    constructor
    · intro checked n node a b found gate
      have bound : n < circuit.nodes.length := (List.getElem?_eq_some_iff.mp found).1
      have both := checked node n found
      simp only [checkOperands, gate, Outcome.bind_ok_iff] at both
      obtain ⟨_, left, right⟩ := both
      exact ⟨(checkOperand_ok_iff bound).mp left, (checkOperand_ok_iff bound).mp right⟩
    · intro earlier node n found
      have bound : n < circuit.nodes.length := (List.getElem?_eq_some_iff.mp found).1
      cases gate : node.operands with
      | none => simp [checkOperands, gate]
      | some pair =>
        obtain ⟨left, right⟩ := earlier n node pair.1 pair.2 found gate
        simp only [checkOperands, gate, Outcome.bind_ok_iff]
        exact ⟨(), (checkOperand_ok_iff bound).mpr left, (checkOperand_ok_iff bound).mpr right⟩
  simp only [validate, Outcome.bind_ok_iff, Outcome.forM_ok_iff, Outcome.reject_ok_iff, gates,
    exists_const, not_or, not_not, List.isEmpty_iff, not_le]
  constructor
  · rintro ⟨operands, ⟨secretInputs, publicInputs⟩, nonempty, outputs⟩
    exact ⟨operands, secretInputs, publicInputs, nonempty, outputs⟩
  · intro valid
    exact ⟨valid.operands, ⟨valid.secretInputs, valid.publicInputs⟩, valid.outputs_ne_nil, valid.outputs⟩

theorem validate_ne_aborted (circuit : Circuit F) : circuit.validate ≠ .aborted := by
  have operand_returns (size index : ℕ) (operand : NodeId) : checkOperand size index operand ≠ .aborted := by
    apply Outcome.bind_ne_aborted Outcome.reject_ne_aborted
    intro _ _
    exact Outcome.reject_ne_aborted
  apply Outcome.bind_ne_aborted
  · apply Outcome.forM_ne_aborted
    intro entry _
    rw [checkOperands]
    split
    · exact Outcome.ok_ne_aborted ()
    · apply Outcome.bind_ne_aborted (operand_returns _ _ _)
      intro _ _
      exact operand_returns _ _ _
  intro _ _
  apply Outcome.bind_ne_aborted Outcome.reject_ne_aborted
  intro _ _
  apply Outcome.bind_ne_aborted Outcome.reject_ne_aborted
  intro _ _
  apply Outcome.forM_ne_aborted
  intro output _
  exact Outcome.reject_ne_aborted

/-- Whether the node at a position is a secret input leaf. -/
def isSecretInput (circuit : Circuit F) (n : ℕ) : Bool := circuit.nodes[n]?.any Node.isSecretInput

/-- Whether the node at a position is a public input leaf. -/
def isPublicInput (circuit : Circuit F) (n : ℕ) : Bool := circuit.nodes[n]?.any Node.isPublicInput

/-- The number of secret input leaves before a position. -/
def secretRank (circuit : Circuit F) (n : ℕ) : ℕ := rank circuit.isSecretInput n

/-- The number of public input leaves before a position. -/
def publicRank (circuit : Circuit F) (n : ℕ) : ℕ := rank circuit.isPublicInput n

theorem WellFormed.secretRank_length {circuit : Circuit F} (valid : circuit.WellFormed) :
    circuit.secretRank circuit.nodes.length = circuit.numSecretInputs := by
  rw [← valid.secretInputs, countP_eq_rank]
  rfl

theorem WellFormed.publicRank_length {circuit : Circuit F} (valid : circuit.WellFormed) :
    circuit.publicRank circuit.nodes.length = circuit.numPublicInputs := by
  rw [← valid.publicInputs, countP_eq_rank]
  rfl

theorem WellFormed.secretRank_lt {circuit : Circuit F} (valid : circuit.WellFormed) {n : ℕ}
    (found : circuit.nodes[n]? = some .secretInput) : circuit.secretRank n < circuit.numSecretInputs := by
  rw [← valid.secretRank_length]
  exact rank_lt (by simp [isSecretInput, found, Node.isSecretInput]) (List.getElem?_eq_some_iff.mp found).1

theorem WellFormed.publicRank_lt {circuit : Circuit F} (valid : circuit.WellFormed) {n : ℕ}
    (found : circuit.nodes[n]? = some .publicInput) : circuit.publicRank n < circuit.numPublicInputs := by
  rw [← valid.publicRank_length]
  exact rank_lt (by simp [isPublicInput, found, Node.isPublicInput]) (List.getElem?_eq_some_iff.mp found).1

/-- Passing a node advances the secret rank exactly on secret input leaves. -/
theorem secretRank_succ {circuit : Circuit F} {n : ℕ} {node : Node F}
    (found : circuit.nodes[n]? = some node) :
    circuit.secretRank (n + 1) = circuit.secretRank n + if node.isSecretInput then 1 else 0 := by
  simp [secretRank, rank_succ, isSecretInput, found]

theorem publicRank_succ {circuit : Circuit F} {n : ℕ} {node : Node F}
    (found : circuit.nodes[n]? = some node) :
    circuit.publicRank (n + 1) = circuit.publicRank n + if node.isPublicInput then 1 else 0 := by
  simp [publicRank, rank_succ, isPublicInput, found]

end Circuit

end PaymentAuth
