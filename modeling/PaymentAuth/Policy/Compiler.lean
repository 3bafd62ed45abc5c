import Mathlib.FieldTheory.Finite.Basic
import PaymentAuth.Crypto.Field
import PaymentAuth.Policy.Normalize
import PaymentAuth.Policy.RangeCheck
import PaymentAuth.Policy.Validation

namespace PaymentAuth

open Library

/-- Which secret input a compiled circuit expects. -/
inductive SecretSlot where
  | credential (index : ℕ)
  | amount
  | amountBit (index : ℕ)
  | differenceBit (index : ℕ)
  | auxiliary
deriving DecidableEq

/-- Which public input a compiled circuit expects. -/
inductive PublicSlot where
  | credentialCommitment (index : ℕ)
  | amountLimit
deriving DecidableEq

structure CompilationMetadata where
  nodeCount : ℕ
  secretInputCount : ℕ
  publicInputCount : ℕ
  multiplicationCount : ℕ

/-- A compiled policy: the circuit and its input slot layouts. -/
structure CompiledPolicy (F : Type) where
  circuit : Circuit F
  secretSlots : List SecretSlot
  publicSlots : List PublicSlot
  auxiliaryTargets : List NodeId
  rangeCheckOutputs : ℕ
  metadata : CompilationMetadata

structure Compiler (F : Type) where
  builder : CircuitBuilder F
  secretSlots : List SecretSlot
  publicSlots : List PublicSlot
  auxiliaryTargets : List NodeId
  constraintOutputs : List NodeId
  multiplicationCount : ℕ
  credentialCounter : ℕ

namespace Compiler

/-- An action of the compiler. -/
abbrev Emit (F α : Type) := Emission (Compiler F) PolicyError α

def new {F : Type} : Compiler F := ⟨CircuitBuilder.new, [], [], [], [], 0, 0⟩

section Gates

variable {F α : Type}

/-- An action on the compiler's builder. -/
def onBuilder (action : RangeCheck.Build F α) : Emit F α :=
  Emission.zoom Compiler.builder (fun builder compiler => { compiler with builder := builder }) action

def auxiliaryInput (target : NodeId) : Emit F NodeId := do
  modify fun compiler => { compiler with
    secretSlots := compiler.secretSlots ++ [.auxiliary]
    auxiliaryTargets := compiler.auxiliaryTargets ++ [target] }
  onBuilder CircuitBuilder.secretInput

def secretInput (slot : SecretSlot) : Emit F NodeId := do
  modify fun compiler => { compiler with secretSlots := compiler.secretSlots ++ [slot] }
  onBuilder CircuitBuilder.secretInput

def publicInput (slot : PublicSlot) : Emit F NodeId := do
  modify fun compiler => { compiler with publicSlots := compiler.publicSlots ++ [slot] }
  onBuilder CircuitBuilder.publicInput

def constant (value : F) : Emit F NodeId := onBuilder (CircuitBuilder.constant value)

def addGate (a b : NodeId) : Emit F NodeId :=
  onBuilder (Emission.mapError (fun _ => .compilationFailure) (CircuitBuilder.add a b))

def mulGate (a b : NodeId) : Emit F NodeId := do
  modify fun compiler => { compiler with multiplicationCount := compiler.multiplicationCount + 1 }
  onBuilder (Emission.mapError (fun _ => .compilationFailure) (CircuitBuilder.mul a b))

/-- Publishes a wire as a constraint that must evaluate to zero. -/
def pushConstraint (node : NodeId) : Emit F Unit :=
  modify fun compiler => { compiler with constraintOutputs := compiler.constraintOutputs ++ [node] }

/-- A missing wire becomes the given error. -/
def required (failure : PolicyError) (wire : Option NodeId) : Emit F NodeId :=
  liftM (Outcome.okOr failure wire)

/-- The first wire stands for itself; later wires are joined by a gate. -/
def joinWire (gate : NodeId → NodeId → Emit F NodeId) (wire : Option NodeId) (subWire : NodeId) : Emit F NodeId :=
  match wire with
  | none => pure subWire
  | some previous => gate previous subWire

/-- Joins the wires of several emissions with a gate, from left to right. -/
def joinWires (gate : NodeId → NodeId → Emit F NodeId) :
    Option NodeId → List (Emit F NodeId) → Emit F (Option NodeId)
  | wire, [] => pure wire
  | wire, emission :: rest => do
    let subWire ← emission
    let next ← joinWire gate wire subWire
    joinWires gate (some next) rest

end Gates

section Arithmetic

variable {F : Type} [CommRing F]

def subGate (a b : NodeId) : Emit F NodeId := do
  let negOne ← constant (-1)
  let negB ← mulGate b negOne
  addGate a negB

def oneMinus (x : NodeId) : Emit F NodeId := do
  let negOne ← constant (-1)
  let negated ← mulGate x negOne
  let one ← constant 1
  addGate negated one

/-- The gate that joins the members of a combinator. -/
def combineGate (combinator : Combinator) (previous subWire : NodeId) : Emit F NodeId :=
  match combinator with
  | .and => mulGate previous subWire
  | .or => do
    let product ← mulGate previous subWire
    let summed ← addGate previous subWire
    subGate summed product

/-- The discriminant wire of a threshold over the sum of its member wires. -/
def emitDiscriminant (k : ThresholdK) (sum : NodeId) : Emit F NodeId := do
  let factors := (List.range k.get.toNat).map fun t => do
    let offset ← constant (-(t : F))
    addGate sum offset
  let discriminant ← joinWires mulGate none factors
  required .invalidThreshold discriminant

/-- The wire `w` of a threshold and the wire `w * (1 - w)`. -/
def booleanGates (discriminant auxiliary : NodeId) : Emit F (NodeId × NodeId) := do
  let w ← mulGate discriminant auxiliary
  let negOne ← constant (-1)
  let negated ← mulGate w negOne
  let one ← constant 1
  let complement ← addGate negated one
  let booleanity ← mulGate w complement
  pure (w, booleanity)

/-- The wire of a threshold and the constraint that keeps it boolean. -/
def emitBooleanWire (discriminant auxiliary : NodeId) : Emit F (NodeId × NodeId) := do
  let (w, booleanity) ← booleanGates discriminant auxiliary
  pushConstraint booleanity
  pure (w, booleanity)

end Arithmetic

/-- The little-endian bits of a field element, over whole 64-bit limbs. -/
def toBitsLe {p : ℕ} (value : ZMod p) : List Bool := (List.range (8 * elementWidth p)).map value.val.testBit

/-- The last position that holds `true`. -/
def rposition : List Bool → Option ℕ
  | [] => none
  | bit :: rest =>
    match rposition rest with
    | some index => some (index + 1)
    | none => if bit then some 0 else none

/-- The declared inputs of an amount cap. -/
structure AmountInputs where
  amount : NodeId
  limit : NodeId
  bits : RangeCheckBits

section Policies

variable {p : ℕ}

/-- One square-and-multiply step. -/
def fermatStep (bits : List Bool) (x acc : NodeId) (index : ℕ) : Emit (ZMod p) NodeId := do
  let squared ← mulGate acc acc
  if bits.getD index false then mulGate squared x else pure squared

/-- Exact indicator `x^(p-1)`, by square-and-multiply. -/
def fermatNonzero (x : NodeId) : Emit (ZMod p) NodeId := do
  let bits := toBitsLe (-1 : ZMod p)
  let highest ← liftM (Outcome.okOr PolicyError.compilationFailure (rposition bits))
  (List.range highest).reverse.foldlM (fermatStep bits x) x

def declareCredential : Emit (ZMod p) (NodeId × NodeId) := do
  let compiler ← get
  let index := compiler.credentialCounter
  set { compiler with credentialCounter := index + 1 }
  let secret ← secretInput (.credential index)
  let commitment ← publicInput (.credentialCommitment index)
  pure (secret, commitment)

def matchCredential (secret commitment : NodeId) : Emit (ZMod p) NodeId := do
  let difference ← subGate secret commitment
  let nonzero ← fermatNonzero difference
  oneMinus nonzero

/-- Emits the wire of a credential leaf. -/
def emitCredential (_id : CredentialId) : Emit (ZMod p) NodeId := do
  let (secret, commitment) ← declareCredential
  matchCredential secret commitment

def declareAmount : Emit (ZMod p) AmountInputs := do
  let amount ← secretInput .amount
  let limit ← publicInput .amountLimit
  let valueBits ← (List.range amountBitLen).mapM fun index => secretInput (.amountBit index)
  let differenceBits ← (List.range amountBitLen).mapM fun index => secretInput (.differenceBit index)
  pure ⟨amount, limit, ⟨valueBits, differenceBits⟩⟩

/-- Multiplies a wire by the indicator that a constraint is zero. -/
def conjoinZero (b c : NodeId) : Emit (ZMod p) NodeId := do
  let fermat ← fermatNonzero c
  let satisfied ← oneMinus fermat
  mulGate b satisfied

/-- The product of the satisfied range-check constraints. -/
def matchAmount (inputs : AmountInputs) : Emit (ZMod p) NodeId := do
  let outputs ← onBuilder (RangeCheck.proveBoundedDifference inputs.amount inputs.limit inputs.bits)
  let one ← constant 1
  outputs.toList.foldlM conjoinZero one

/-- Emits the wire of an amount cap. -/
def emitAmount (_limit : AmountLimit) : Emit (ZMod p) NodeId := do
  let inputs ← declareAmount
  matchAmount inputs

mutual

/-- Emits the boolean wire of a policy. -/
def emitPolicy : Policy → Emit (ZMod p) NodeId
  | .amountAtMost limit => emitAmount limit
  | .credential id => emitCredential id
  | .threshold k members => do
    let joined ← joinWires addGate none (emitMembers members)
    let sum ← required .emptyPolicy joined
    let discriminant ← emitDiscriminant k sum
    let auxiliary ← auxiliaryInput discriminant
    let (w, _) ← emitBooleanWire discriminant auxiliary
    pure w
  | .and members => do
    let joined ← joinWires (combineGate .and) none (emitMembers members)
    required .emptyPolicy joined
  | .or members => do
    let joined ← joinWires (combineGate .or) none (emitMembers members)
    required .emptyPolicy joined

def emitMembers : List Policy → List (Emit (ZMod p) NodeId)
  | [] => []
  | member :: rest => emitPolicy member :: emitMembers rest

end

end Policies

/-- Publishes the constraints and then the root, and validates the circuit. -/
def finish {F : Type} (compiler : Compiler F) (root : NodeId) : Outcome PolicyError (CompiledPolicy F) := do
  let (_, builder) ← ((do
    forM compiler.constraintOutputs CircuitBuilder.output
    CircuitBuilder.output root : CircuitBuilder.Build F CircuitError Unit) compiler.builder).mapError
      fun _ => PolicyError.circuitValidationFailure
  let circuit ← builder.build.mapError fun _ => PolicyError.circuitValidationFailure
  .ok {
    circuit
    secretSlots := compiler.secretSlots
    publicSlots := compiler.publicSlots
    auxiliaryTargets := compiler.auxiliaryTargets
    rangeCheckOutputs := compiler.constraintOutputs.length
    metadata := {
      nodeCount := circuit.nodes.length
      secretInputCount := circuit.numSecretInputs
      publicInputCount := circuit.numPublicInputs
      multiplicationCount := compiler.multiplicationCount } }

end Compiler

/-- Compiles a policy into a circuit and its input slot layouts. -/
def compileWithLayout {p : ℕ} (policy : Policy) : Outcome PolicyError (CompiledPolicy (ZMod p)) := do
  let normalized ← policy.normalize
  normalized.validate
  let (root, compiler) ← Compiler.emitPolicy normalized Compiler.new
  compiler.finish root

end PaymentAuth
