import PaymentAuth.Mpcith.Encoding

namespace PaymentAuth.Proof

open Library

inductive ProofError where
  | invalidStatement
  | invalidCircuit
  | invalidWitness
  | challengeMismatch
  | verificationFailed
  | malformedEncoding
  | invalidVersion
  | circuitIdMismatch
  | outputMismatch
  | unsupportedBackend
  | excessiveRepetitions
deriving DecidableEq, Repr

/-- Current statement-encoding version. -/
def statementVersion : UInt8 := 1

/-- Public description of what is proven. -/
structure Statement where
  circuitId : CircuitId
  publicInputs : List FieldElement
  expectedOutputs : List FieldElement
deriving DecidableEq

/-- Checks consistency against a circuit. -/
def Statement.validate (sha256 : Bytes → Digest) (statement : Statement)
    (circuit : Circuit FieldElement) : Outcome ProofError Unit := do
  circuit.validate.mapError fun _ => .invalidCircuit
  let id ← circuit.computeId sha256
  Outcome.reject (statement.circuitId ≠ id) .circuitIdMismatch
  Outcome.reject
    (statement.publicInputs.length ≠ circuit.numPublicInputs ∨
      statement.expectedOutputs.length ≠ circuit.outputs.length)
    .invalidStatement

/-- The canonical encoding; its counts keep their low 32 bits. -/
def Statement.encode (statement : Statement) : Bytes :=
  [statementVersion] ++ statement.circuitId.bytes ++
    Reader.encodeList elementToBeBytes statement.publicInputs ++
    Reader.encodeList elementToBeBytes statement.expectedOutputs

/-- Reads a statement from the front of a larger buffer. -/
def Statement.decodePrefix : Reader ProofError Statement := do
  let version ← Reader.readU8 .malformedEncoding
  Emission.reject (version ≠ statementVersion) .invalidVersion
  let circuitId ← readDigest .malformedEncoding
  let publicInputs ← Reader.readList .malformedEncoding (readElement .malformedEncoding)
  let expectedOutputs ← Reader.readList .malformedEncoding (readElement .malformedEncoding)
  return ⟨circuitId, publicInputs, expectedOutputs⟩

/-- Parses a statement, rejecting trailing bytes. -/
def Statement.decode (bytes : Bytes) : Outcome ProofError Statement := do
  let (statement, rest) ← Statement.decodePrefix bytes
  Outcome.reject (rest ≠ []) .malformedEncoding
  .ok statement

/-- Converts into the statement of the inner protocol. -/
def Statement.toMpcith (statement : Statement) : Mpcith.Statement where
  circuitId := statement.circuitId
  publicInputs := statement.publicInputs
  expectedOutputs := statement.expectedOutputs

/-- A statement whose counts fit their fields. -/
structure Statement.Encodable (statement : Statement) : Prop where
  publicInputs : statement.publicInputs.length < 2 ^ 32
  expectedOutputs : statement.expectedOutputs.length < 2 ^ 32

theorem Statement.validate_ok_iff {sha256 : Bytes → Digest} {statement : Statement}
    {circuit : Circuit FieldElement} {result : Unit} :
    statement.validate sha256 circuit = .ok result ↔ statement.toMpcith.Validated sha256 circuit := by
  simp only [Statement.validate, Outcome.bind_ok_iff, Outcome.mapError_ok_iff, Outcome.reject_ok_iff,
    Circuit.validate_ok_iff, exists_const, not_or, not_not]
  constructor
  · rintro ⟨wellFormed, id, computed, rfl, publicInputs, expectedOutputs⟩
    exact ⟨wellFormed, Circuit.computeId_ok_iff.mpr (Circuit.computeId_ok_iff.mp computed), publicInputs,
      expectedOutputs⟩
  · intro validated
    exact ⟨validated.wellFormed, _, Circuit.computeId_ok_iff.mpr (Circuit.computeId_ok_iff.mp validated.circuitId), rfl,
      validated.publicInputs, validated.expectedOutputs⟩

theorem Statement.decodePrefix_canonical :
    Statement.decodePrefix.Canonical Statement.encode Statement.Encodable := by
  have readElements := Reader.readList_canonical ProofError.malformedEncoding
    (readElement_canonical ProofError.malformedEncoding)
  intro bytes statement rest
  simp only [Statement.decodePrefix, Emission.bind_ok_iff, (Reader.readU8_canonical ProofError.malformedEncoding) _ _ _,
    Emission.reject_ok_iff, (readDigest_canonical ProofError.malformedEncoding) _ _ _, readElements _ _ _,
    Emission.pure_ok_iff, true_and, not_not]
  constructor
  · rintro ⟨_, _, rfl, _, _, ⟨rfl, rfl⟩, circuitId, _, rfl, publicInputs, _, ⟨⟨publicLen, _⟩, rfl⟩,
      expectedOutputs, _, ⟨⟨outputsLen, _⟩, rfl⟩, rfl, rfl⟩
    exact ⟨⟨publicLen, outputsLen⟩, by simp [Statement.encode]⟩
  · rintro ⟨encodable, rfl⟩
    exact ⟨statementVersion, _, by rw [Statement.encode, List.append_assoc, List.append_assoc, List.append_assoc],
      (), _, ⟨rfl, rfl⟩, statement.circuitId, _, rfl,
      statement.publicInputs, _, ⟨⟨encodable.publicInputs, fun _ _ => trivial⟩, rfl⟩,
      statement.expectedOutputs, rest, ⟨⟨encodable.expectedOutputs, fun _ _ => trivial⟩, rfl⟩, rfl, rfl⟩

end PaymentAuth.Proof
