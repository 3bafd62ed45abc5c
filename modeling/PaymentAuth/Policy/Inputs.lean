import PaymentAuth.Policy.Compiler
import PaymentAuth.Policy.Evaluator

namespace PaymentAuth

open Library

/-- Reads a digest as the canonical field element used for commitments. -/
def digestToField {p : ℕ} (digest : Digest) : ZMod p := (fromLeBytes digest.bytes : ℕ)

/-- The little-endian binary digits of an amount. -/
def decompose (value : UInt64) : List Bool := (List.range amountBitLen).map value.toNat.testBit

/-- Evaluates every node of a circuit over plaintext field elements. -/
def evalAllNodes {F : Type} [CommRing F] (circuit : Circuit F) (secrets publics : List F) :
    Outcome PolicyError (List F) := do
  Outcome.reject (secrets.length ≠ circuit.numSecretInputs ∨ publics.length ≠ circuit.numPublicInputs)
    .circuitValidationFailure
  let (values, _) ← (forwardPass (evaluateNode secrets publics) circuit.nodes [] ⟨0, 0⟩).mapError
    fun _ => PolicyError.circuitValidationFailure
  .ok values

/-- The input vectors under construction and the positions of the auxiliary inputs. -/
structure FilledInputs (F : Type) where
  secrets : List F
  publics : List F
  auxPositions : List ℕ

/-- An action that appends to the inputs. -/
abbrev Fill (F α : Type) := Emission (FilledInputs F) PolicyError α

section Fill

variable {p : ℕ} (sha256 : Bytes → Digest) (witness : PolicyWitness)

/-- Appends secret and public inputs. -/
def pushInputs {F : Type} (secrets publics : List F) : Fill F Unit :=
  modify fun inputs => { inputs with secrets := inputs.secrets ++ secrets, publics := inputs.publics ++ publics }

/-- Appends an unsolved auxiliary input and notes its position. -/
def pushAuxiliary {F : Type} [Zero F] : Fill F Unit :=
  modify fun inputs => { inputs with
    auxPositions := inputs.auxPositions ++ [inputs.secrets.length]
    secrets := inputs.secrets ++ [0] }

/-- The amount of the witness; an absent amount is filled as zero. -/
def PolicyWitness.amountOrZero (witness : PolicyWitness) : UInt64 :=
  match witness.amount with
  | some amount => amount.value
  | none => 0

def fillCredential (id : CredentialId) : Fill (ZMod p) Unit := do
  let secret ← liftM (Outcome.okOr PolicyError.witnessMismatch (witness.secretFor id))
  pushInputs [digestToField (credentialCommitment sha256 secret)] [digestToField id.toDigest]

def fillAmount (limit : AmountLimit) : Fill (ZMod p) Unit :=
  let amount := witness.amountOrZero
  let bits := decompose amount ++ decompose (limit.value - amount)
  pushInputs ((amount.toNat : ZMod p) :: bits.map fun bit => (bit.toNat : ZMod p)) [(limit.value.toNat : ZMod p)]

mutual

/-- Fills the inputs of a policy in the order its compilation declares them. -/
def fill : Policy → Fill (ZMod p) Unit
  | .credential id => fillCredential sha256 witness id
  | .amountAtMost limit => fillAmount witness limit
  | .threshold _ members => do
    fillMembers members
    pushAuxiliary
  | .and members => fillMembers members
  | .or members => fillMembers members

def fillMembers : List Policy → Fill (ZMod p) Unit
  | [] => pure ()
  | member :: rest => do
    fill member
    fillMembers rest

end

end Fill

namespace CompiledPolicy

section Solve

variable {p : ℕ} (compiled : CompiledPolicy (ZMod p)) (publics : List (ZMod p))

/-- Sets one auxiliary input to the inverse of its target, noting a change. -/
def solveAuxiliary (values : List (ZMod p)) (state : List (ZMod p) × Bool) (entry : ℕ × NodeId) :
    Outcome PolicyError (List (ZMod p) × Bool) := do
  let target ← Outcome.expect values[entry.2.asUsize]?
  let current ← Outcome.expect state.1[entry.1]?
  if current ≠ target⁻¹ then .ok (state.1.set entry.1 target⁻¹, true) else .ok state

/-- One round over all auxiliary inputs, at the values of the previous round. -/
def solveRound (auxPositions : List ℕ) (secrets : List (ZMod p)) :
    Outcome PolicyError (List (ZMod p) × Bool) := do
  let values ← evalAllNodes compiled.circuit secrets publics
  (auxPositions.zip compiled.auxiliaryTargets).foldlM (solveAuxiliary values) (secrets, false)

/-- Rounds until nothing changes, at most as many as given. -/
def solveRounds (auxPositions : List ℕ) : ℕ → List (ZMod p) → Outcome PolicyError (List (ZMod p))
  | 0, secrets => .ok secrets
  | rounds + 1, secrets => do
    let (next, changed) ← compiled.solveRound publics auxPositions secrets
    if changed then solveRounds auxPositions rounds next else .ok next

end Solve

section Evaluate

variable {p : ℕ} (sha256 : Bytes → Digest) (compiled : CompiledPolicy (ZMod p))

/-- Builds the secret and public inputs of a compiled policy, solving the
auxiliary inputs of its thresholds. -/
def buildInputs (policy : Policy) (witness : PolicyWitness) :
    Outcome PolicyError (List (ZMod p) × List (ZMod p)) := do
  let normalized ← policy.normalize
  let (_, filled) ← fill sha256 witness normalized ⟨[], [], []⟩
  let secrets ← compiled.solveRounds filled.publics filled.auxPositions (compiled.auxiliaryTargets.length + 1)
    filled.secrets
  .ok (secrets, filled.publics)

/-- Whether any of the given nodes has a nonzero value; later nodes are read
only while the earlier ones are zero. -/
def anyNonzero (values : List (ZMod p)) : List NodeId → Outcome PolicyError Bool
  | [] => .ok false
  | node :: rest => do
    let value ← Outcome.expect values[node.asUsize]?
    if value ≠ 0 then .ok true else anyNonzero values rest

/-- Reference evaluation of the compiled circuit: whether every constraint
output is zero and the root is one. -/
def referenceEvaluate (policy : Policy) (witness : PolicyWitness) : Outcome PolicyError Bool := do
  let (secrets, publics) ← compiled.buildInputs sha256 policy witness
  let values ← evalAllNodes compiled.circuit secrets publics
  let violated ← anyNonzero values (compiled.circuit.outputs.take compiled.rangeCheckOutputs)
  if violated then .ok false else do
    let root ← Outcome.okOr PolicyError.circuitValidationFailure compiled.circuit.outputs.getLast?
    let value ← Outcome.expect values[root.asUsize]?
    .ok (value == 1)

end Evaluate

end CompiledPolicy

section Spec

variable {p : ℕ}

/-- A pass over all nodes succeeds exactly with the values that solve the circuit. -/
theorem evalAllNodes_ok_iff {F : Type} [CommRing F] {circuit : Circuit F} (valid : circuit.WellFormed)
    {secrets publics values : List F} :
    evalAllNodes circuit secrets publics = .ok values ↔
      secrets.length = circuit.numSecretInputs ∧ publics.length = circuit.numPublicInputs ∧
        values.length = circuit.nodes.length ∧
        circuit.Solves (circuit.plaintext (inputAt secrets) (inputAt publics)) (inputAt values) := by
  simp only [evalAllNodes, Outcome.bind_ok_iff, Outcome.reject_ok_iff, Outcome.mapError_ok_iff, exists_const, not_or,
    not_not, Prod.exists, Outcome.ok.injEq, and_assoc]
  refine and_congr_right fun secretCount => and_congr_right fun publicCount => ?_
  rw [← forwardPass_evaluateNode_iff valid secretCount publicCount]
  constructor
  · rintro ⟨_, final, run, rfl⟩
    exact ⟨final, run⟩
  · rintro ⟨final, run⟩
    exact ⟨values, final, run, rfl⟩

/-- A pass over inputs of the declared lengths succeeds. -/
theorem exists_evalAllNodes {F : Type} [CommRing F] {circuit : Circuit F} (valid : circuit.WellFormed)
    {secrets publics : List F} (secretCount : secrets.length = circuit.numSecretInputs)
    (publicCount : publics.length = circuit.numPublicInputs) :
    ∃ values, evalAllNodes circuit secrets publics = .ok values := by
  have solved := valid.valueOf_solves (circuit.plaintext (inputAt secrets) (inputAt publics)) 0
  obtain ⟨final, run⟩ := forwardPass_of_solves valid secretCount publicCount solved
  refine ⟨_, (evalAllNodes_ok_iff valid).mpr ⟨secretCount, publicCount,
    (forwardPass_evaluateNode_iff valid secretCount publicCount).mp ⟨final, run⟩⟩⟩

end Spec

end PaymentAuth
