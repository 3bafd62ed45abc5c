import PaymentAuth.Circuit.Evaluation
import PaymentAuth.Crypto.FieldPrime
import PaymentAuth.Payment.Witness
import PaymentAuth.Policy.Compiler

namespace PaymentAuth

open Library

/-- Compiles a policy; every failure is an invalid policy. -/
def compile (policy : Policy) : Outcome PaymentError (CompiledPolicy FieldElement) :=
  (compileWithLayout policy).mapError fun _ => .invalidPolicy

/-- The public values tying a proof to its statement: amount, recipient
commitment, nonce and payment id. -/
def bindingValues (statement : PaymentStatement) : List FieldElement :=
  [(statement.amount.value.toNat : FieldElement), digestToField statement.recipientCommitment,
    digestToField statement.nonce, digestToField statement.paymentId]

def bindingSlots : ℕ := 4

/-- Appends a node and returns its id. -/
def pushNode (node : Node FieldElement) (nodes : List (Node FieldElement)) : NodeId × List (Node FieldElement) :=
  (.ofIndex nodes.length, nodes ++ [node])

def pushLeaves : ℕ → List (Node FieldElement) → List NodeId × List (Node FieldElement)
  | 0, nodes => ([], nodes)
  | count + 1, nodes =>
    let (id, nodes) := pushNode .publicInput nodes
    let (ids, nodes) := pushLeaves count nodes
    (id :: ids, nodes)

/-- Multiplies the leaves into a running product. -/
def pushProduct : NodeId → List NodeId → List (Node FieldElement) → NodeId × List (Node FieldElement)
  | product, [], nodes => (product, nodes)
  | product, leaf :: rest, nodes =>
    let (id, nodes) := pushNode (.mul product leaf) nodes
    pushProduct id rest nodes

/-- Extends a compiled circuit with binding leaves multiplied into the root wire. -/
def bindStatement (compiled : CompiledPolicy FieldElement) : Outcome PaymentError (Circuit FieldElement) := do
  let base := compiled.circuit
  let (leaves, nodes) := pushLeaves bindingSlots base.nodes
  let (product, nodes) ← match leaves with
    | [] => .error .invalidPolicy
    | first :: rest => .ok (pushProduct first rest nodes)
  let oldRoot ← Outcome.okOr .invalidPolicy base.outputs.getLast?
  let (finalNode, nodes) := pushNode (.mul oldRoot product) nodes
  let outputs := base.outputs.dropLast ++ [finalNode]
  let bound : Circuit FieldElement :=
    ⟨nodes, base.numSecretInputs, base.numPublicInputs + bindingSlots, outputs⟩
  bound.validate.mapError fun _ => PaymentError.invalidPolicy
  .ok bound

/-- Takes a commitment or a limit for every public slot, each from its own list. -/
def publicInputsOf : List PublicSlot → List CredentialId → List UInt64 → Outcome PaymentError (List FieldElement)
  | [], _, _ => .ok []
  | .credentialCommitment _ :: slots, ids, limits => do
    let id ← Outcome.okOr .invalidPolicy ids.head?
    let rest ← publicInputsOf slots ids.tail limits
    .ok (digestToField id.toDigest :: rest)
  | .amountLimit :: slots, ids, limits => do
    let limit ← Outcome.okOr .invalidPolicy limits.head?
    let rest ← publicInputsOf slots ids limits.tail
    .ok ((limit.toNat : FieldElement) :: rest)

/-- The public inputs of the unbound circuit, from the normalized policy alone. -/
def policyPublicInputs (compiled : CompiledPolicy FieldElement) (policy : Policy) :
    Outcome PaymentError (List FieldElement) := do
  let normalized ← policy.normalize.mapError fun _ => PaymentError.invalidPolicy
  publicInputsOf compiled.publicSlots normalized.policyCredentialIds normalized.limits

/-- The public inputs of the bound circuit. -/
def boundPublicInputs (compiled : CompiledPolicy FieldElement) (policy : Policy) (statement : PaymentStatement) :
    Outcome PaymentError (List FieldElement) := do
  let publics ← policyPublicInputs compiled policy
  .ok (publics ++ bindingValues statement)

/-- Both input vectors of the unbound circuit for a witness. -/
def buildInputs (sha256 : Bytes → Digest) (compiled : CompiledPolicy FieldElement) (policy : Policy)
    (witness : PrivateWitness) : Outcome PaymentError (List FieldElement × List FieldElement) := do
  let policyWitness ← witness.toPolicyWitness policy
  (compiled.buildInputs sha256 policy policyWitness).mapError fun _ => .invalidPolicy

def referenceOutputs (circuit : Circuit FieldElement) (secrets publics : List FieldElement) :
    Outcome PaymentError (List FieldElement) :=
  (evaluateReference circuit secrets publics).mapError fun _ => .invalidPolicy

/-- The product that the bound root is compared with, factor by factor. -/
def bindingProduct (statement : PaymentStatement) : FieldElement := (bindingValues statement).foldl (· * ·) 1

/-- What a verifier expects of the bound circuit: zero constraints and the binding product. -/
def expectedOutputs (compiled : CompiledPolicy FieldElement) (statement : PaymentStatement) : List FieldElement :=
  List.replicate compiled.rangeCheckOutputs 0 ++ [bindingProduct statement]

/-- The circuit that binding appends to: four public leaves, their product and the new root. -/
def boundCircuit (base : Circuit FieldElement) (root : NodeId) : Circuit FieldElement where
  nodes := base.nodes ++ [.publicInput] ++ [.publicInput] ++ [.publicInput] ++ [.publicInput] ++
    [.mul (.ofIndex base.nodes.length) (.ofIndex (base.nodes.length + 1))] ++
    [.mul (.ofIndex (base.nodes.length + 4)) (.ofIndex (base.nodes.length + 2))] ++
    [.mul (.ofIndex (base.nodes.length + 5)) (.ofIndex (base.nodes.length + 3))] ++
    [.mul root (.ofIndex (base.nodes.length + 6))]
  numSecretInputs := base.numSecretInputs
  numPublicInputs := base.numPublicInputs + 4
  outputs := base.outputs.dropLast ++ [.ofIndex (base.nodes.length + 7)]

theorem compile_ok_iff {policy : Policy} {compiled : CompiledPolicy FieldElement} :
    compile policy = .ok compiled ↔ compileWithLayout policy = .ok compiled :=
  Outcome.mapError_ok_iff

theorem bindStatement_ok_iff {compiled : CompiledPolicy FieldElement} {bound : Circuit FieldElement} :
    bindStatement compiled = .ok bound ↔
      ∃ root, compiled.circuit.outputs.getLast? = some root ∧ (boundCircuit compiled.circuit root).WellFormed ∧
        boundCircuit compiled.circuit root = bound := by
  simp only [bindStatement, bindingSlots, pushLeaves, pushNode, pushProduct, Outcome.ok_bind, Outcome.bind_ok_iff,
    Outcome.okOr_ok_iff, Outcome.mapError_ok_iff, Circuit.validate_ok_iff, exists_const, Outcome.ok.injEq,
    List.length_append, List.length_singleton]
  rfl

theorem bindingProduct_eq (statement : PaymentStatement) :
    bindingProduct statement = (bindingValues statement).prod := by
  rw [bindingProduct, List.prod_eq_foldl]

/-- The binding product vanishes exactly when a binding value does. -/
theorem bindingProduct_ne_zero_iff (statement : PaymentStatement) :
    bindingProduct statement ≠ 0 ↔ ∀ value ∈ bindingValues statement, value ≠ 0 := by
  rw [bindingProduct_eq, ne_eq, List.prod_eq_zero_iff]
  constructor
  · intro absent value member zero
    exact absent (zero ▸ member)
  · intro nonzero member
    exact nonzero 0 member rfl

end PaymentAuth
