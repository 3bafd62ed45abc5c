import PaymentAuth.Circuit.Encoding
import PaymentAuth.Crypto.FieldPrime

namespace PaymentAuth.Mpcith

open Library

inductive MpcithError where
  | invalidStatement
  | invalidCircuit
  | invalidChallenge
  | invalidRepetitionCount
  | missingCommitment
  | malformedCommitment
  | missingResponse
  | invalidOpening
  | commitmentMismatch
  | inconsistentView
  | invalidOperation
  | outputMismatch
  | malformedEncoding
  | invalidProtocolState
deriving DecidableEq, Repr

/-- Number of virtual parties per repetition. -/
def partyCount : ℕ := 3

/-- One of the three virtual parties (values 0, 1, 2 only). -/
abbrev PartyId := Fin 3

instance partyCount_neZero : NeZero 3 := ⟨by decide⟩

/-- Creates a party id, rejecting anything outside `0..3`. -/
def PartyId.new (value : UInt8) : Outcome MpcithError PartyId :=
  if small : value.toNat < partyCount then .ok ⟨value.toNat, small⟩ else .error .invalidChallenge

def PartyId.get (party : PartyId) : UInt8 := UInt8.ofNat party.val

/-- The two parties that are not this one, in ascending order. -/
def PartyId.others (party : PartyId) : List PartyId :=
  match party with
  | 0 => [1, 2]
  | 1 => [0, 2]
  | 2 => [0, 1]

theorem PartyId.others_length (party : PartyId) : (PartyId.others party).length = 2 := by
  revert party
  decide

theorem PartyId.others_sorted (party : PartyId) : (PartyId.others party).Pairwise (· ≤ ·) := by
  revert party
  decide

@[simp] theorem PartyId.new_get (party : PartyId) : PartyId.new (PartyId.get party) = .ok party := by
  revert party
  decide

/-- Identifies one independent repetition. -/
structure RepetitionId where
  get : UInt32
deriving DecidableEq, Repr

/-- `RepetitionId::new(index as u32)`. -/
def RepetitionId.ofIndex (index : ℕ) : RepetitionId := ⟨UInt32.ofNat index⟩

/-- The verifier's per-repetition challenge: which party's view stays hidden. -/
structure Challenge where
  hiddenParty : PartyId
deriving DecidableEq, Repr

/-- One party's share of a Beaver triple with `c = a · b`. -/
structure TripleShare where
  a : FieldElement
  b : FieldElement
  c : FieldElement
deriving DecidableEq

/-- A local operation one party performed for one gate. -/
inductive LocalOperation where
  | add (output : NodeId) (share : FieldElement)
  | mulPublic (output : NodeId) (scalar share : FieldElement)
  | beaverMul (output : NodeId) (tripleIndex : ℕ) (d e share : FieldElement)
deriving DecidableEq

/-- Everything one virtual party did during one repetition. -/
structure PartyView where
  repetitionId : RepetitionId
  partyId : PartyId
  inputShares : List FieldElement
  localOperations : List LocalOperation
  tripleShares : List TripleShare
  openedValues : List FieldElement
deriving DecidableEq

/-- Value of one circuit node during an execution or a replay: a plaintext value
known to everyone, or the shares of the parties concerned. -/
inductive NodeVal (Share : Type) where
  | plain (value : FieldElement)
  | shared (share : Share)
deriving DecidableEq

/-- A pinned circuit, its public inputs and the outputs an execution must produce. -/
structure Statement where
  circuitId : CircuitId
  publicInputs : List FieldElement
  expectedOutputs : List FieldElement
deriving DecidableEq

/-- Checks internal consistency against a circuit. -/
def Statement.validate (sha256 : Bytes → Digest) (statement : Statement)
    (circuit : Circuit FieldElement) : Outcome MpcithError Unit := do
  circuit.validate.mapError fun _ => .invalidCircuit
  let id ← circuit.computeId sha256
  Outcome.reject (statement.circuitId ≠ id) .invalidCircuit
  Outcome.reject
    (statement.publicInputs.length ≠ circuit.numPublicInputs ∨
      statement.expectedOutputs.length ≠ circuit.outputs.length)
    .invalidStatement

/-- What validation establishes about a statement and its circuit. -/
structure Statement.Validated (sha256 : Bytes → Digest) (statement : Statement)
    (circuit : Circuit FieldElement) : Prop where
  wellFormed : circuit.WellFormed
  circuitId : circuit.computeId sha256 = (.ok statement.circuitId : Outcome MpcithError CircuitId)
  publicInputs : statement.publicInputs.length = circuit.numPublicInputs
  expectedOutputs : statement.expectedOutputs.length = circuit.outputs.length

theorem Statement.validate_ok_iff {sha256 : Bytes → Digest} {statement : Statement}
    {circuit : Circuit FieldElement} {result : Unit} :
    statement.validate sha256 circuit = .ok result ↔ statement.Validated sha256 circuit := by
  simp only [Statement.validate, Outcome.bind_ok_iff, Outcome.mapError_ok_iff, Outcome.reject_ok_iff,
    Circuit.validate_ok_iff, exists_const, not_or, not_not]
  constructor
  · rintro ⟨wellFormed, id, computed, rfl, publicInputs, expectedOutputs⟩
    exact ⟨wellFormed, computed, publicInputs, expectedOutputs⟩
  · rintro ⟨wellFormed, computed, publicInputs, expectedOutputs⟩
    exact ⟨wellFormed, _, computed, rfl, publicInputs, expectedOutputs⟩

theorem Statement.Validated.nodes_lt {sha256 : Bytes → Digest} {statement : Statement}
    {circuit : Circuit FieldElement} (validated : statement.Validated sha256 circuit) :
    circuit.nodes.length < 2 ^ 32 :=
  (Circuit.computeId_ok_bounds validated.circuitId).1

end PaymentAuth.Mpcith
