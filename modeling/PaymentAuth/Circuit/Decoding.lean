import PaymentAuth.Circuit.Encoding
import PaymentAuth.Library.Wire

/-! Reading circuits back from their canonical encodings. -/

namespace PaymentAuth

open Library

/-- Maximum number of nodes a circuit decoder will accept. -/
def maxCircuitNodes : ℕ := 1000000

def readNodeId {ε : Type} (malformed : ε) : Reader ε NodeId := do
  let id ← Reader.readU32 malformed
  return ⟨id⟩

namespace Circuit

variable {p : ℕ}

/-- The element with the given big-endian bytes, unless they reach the modulus. -/
def elementFromBeBytes (bytes : Bytes) : Option (ZMod p) :=
  if fromBeBytes bytes < p then some (fromBeBytes bytes : ZMod p) else none

def readElement : Reader CircuitError (ZMod p) := do
  let raw ← Reader.readBytes .unexpectedEnd (elementWidth p)
  liftM (Outcome.okOr CircuitError.malformedNode (elementFromBeBytes raw))

def readNode : Reader CircuitError (Node (ZMod p)) := do
  let tag ← Reader.readU8 .unexpectedEnd
  if tag = 0 then return .secretInput
  else if tag = 1 then return .publicInput
  else if tag = 2 then do
    let value ← readElement
    return .constant value
  else if tag = 3 then do
    let a ← readNodeId .unexpectedEnd
    let b ← readNodeId .unexpectedEnd
    return .add a b
  else if tag = 4 then do
    let a ← readNodeId .unexpectedEnd
    let b ← readNodeId .unexpectedEnd
    return .mul a b
  else liftM (.error .malformedNode : Outcome CircuitError (Node (ZMod p)))

/-- Reads the version, the nodes and the outputs. -/
def readSections : Reader CircuitError (List (Node (ZMod p)) × List NodeId) := do
  let version ← Reader.readU8 .unexpectedEnd
  Emission.reject (version ≠ circuitEncodingVersion) .unsupportedVersion
  let numNodes ← Reader.readU32 .unexpectedEnd
  Emission.reject (numNodes.toNat > maxCircuitNodes) .excessiveSize
  let nodes ← Reader.readMany readNode numNodes.toNat
  let outputs ← Reader.readList .unexpectedEnd (readNodeId .unexpectedEnd)
  return (nodes, outputs)

/-- Parses a circuit from its canonical byte representation. The input counts are
derived from the decoded leaves. -/
def deserialize (bytes : Bytes) : Outcome CircuitError (Circuit (ZMod p)) := do
  let (nodes, outputs) ← Reader.readWhole .trailingBytes readSections bytes
  let circuit : Circuit (ZMod p) :=
    ⟨nodes, nodes.countP Node.isSecretInput, nodes.countP Node.isPublicInput, outputs⟩
  circuit.validate
  .ok circuit

end Circuit

theorem readNodeId_canonical {ε : Type} (malformed : ε) :
    (readNodeId malformed).Canonical NodeId.encode fun _ => True := by
  intro bytes id rest
  simp only [readNodeId, Emission.bind_ok_iff, (Reader.readU32_canonical malformed) _ _ _, Emission.pure_ok_iff, true_and]
  constructor
  · rintro ⟨_, _, rfl, rfl, rfl⟩
    rfl
  · rintro rfl
    exact ⟨id.get, rest, rfl, rfl, rfl⟩

namespace Circuit

variable {p : ℕ}

/-- The bytes of one element are its encoding and no other bytes of the same width. -/
theorem elementFromBeBytes_eq_some_iff [NeZero p] {bytes : Bytes} {value : ZMod p}
    (size : bytes.length = elementWidth p) :
    elementFromBeBytes bytes = some value ↔ bytes = elementToBeBytes value := by
  rw [elementFromBeBytes, natCast_eq_some_iff, eq_comm (a := bytes), elementToBeBytes_eq_iff size]

theorem readElement_canonical [NeZero p] :
    (readElement : Reader CircuitError (ZMod p)).Canonical elementToBeBytes fun _ => True := by
  intro bytes value rest
  simp only [readElement, Emission.bind_ok_iff, (Reader.readBytes_canonical CircuitError.unexpectedEnd _) _ _ _,
    Emission.liftM_ok_iff, Outcome.okOr_ok_iff, id, true_and]
  constructor
  · rintro ⟨raw, _, ⟨size, rfl⟩, found, rfl⟩
    rw [(elementFromBeBytes_eq_some_iff size).mp found]
  · rintro rfl
    have size : (elementToBeBytes value).length = elementWidth p := toBeBytes_length _ _
    exact ⟨_, rest, ⟨size, rfl⟩, (elementFromBeBytes_eq_some_iff size).mpr rfl, rfl⟩

/-- A reader of nodes accepts their encodings and no other byte strings. -/
theorem readNode_canonical [NeZero p] :
    (readNode : Reader CircuitError (Node (ZMod p))).Canonical Node.encode fun _ => True := by
  have operand := readNodeId_canonical CircuitError.unexpectedEnd
  intro bytes node rest
  simp only [readNode, Emission.bind_ok_iff, (Reader.readU8_canonical CircuitError.unexpectedEnd) _ _ _, true_and]
  constructor
  · rintro ⟨tag, fields, rfl, reads⟩
    by_cases secret : tag = 0
    · subst secret
      rw [if_pos rfl, Emission.pure_ok_iff] at reads
      obtain ⟨rfl, rfl⟩ := reads
      rfl
    rw [if_neg secret] at reads
    by_cases published : tag = 1
    · subst published
      rw [if_pos rfl, Emission.pure_ok_iff] at reads
      obtain ⟨rfl, rfl⟩ := reads
      rfl
    rw [if_neg published] at reads
    by_cases constant : tag = 2
    · subst constant
      simp only [if_true, Emission.bind_ok_iff, readElement_canonical _ _ _, Emission.pure_ok_iff, true_and] at reads
      obtain ⟨value, _, rfl, rfl, rfl⟩ := reads
      rfl
    rw [if_neg constant] at reads
    by_cases sum : tag = 3
    · subst sum
      simp only [if_true, Emission.bind_ok_iff, operand _ _ _, Emission.pure_ok_iff, true_and] at reads
      obtain ⟨a, _, rfl, b, _, rfl, rfl, rfl⟩ := reads
      simp [Node.encode]
    rw [if_neg sum] at reads
    by_cases product : tag = 4
    · subst product
      simp only [if_true, Emission.bind_ok_iff, operand _ _ _, Emission.pure_ok_iff, true_and] at reads
      obtain ⟨a, _, rfl, b, _, rfl, rfl, rfl⟩ := reads
      simp [Node.encode]
    rw [if_neg product, Emission.liftM_ok_iff] at reads
    cases reads.1
  · rintro rfl
    cases node with
    | secretInput => exact ⟨0, rest, rfl, rfl⟩
    | publicInput => exact ⟨1, rest, rfl, rfl⟩
    | constant value =>
      refine ⟨2, elementToBeBytes value ++ rest, rfl, ?_⟩
      rw [if_neg (by decide), if_neg (by decide), if_pos rfl]
      simp only [Emission.bind_ok_iff, readElement_canonical _ _ _, Emission.pure_ok_iff, true_and]
      exact ⟨value, rest, rfl, rfl, rfl⟩
    | add a b =>
      refine ⟨3, a.encode ++ (b.encode ++ rest), by simp [Node.encode], ?_⟩
      rw [if_neg (by decide), if_neg (by decide), if_neg (by decide), if_pos rfl]
      simp only [Emission.bind_ok_iff, operand _ _ _, Emission.pure_ok_iff, true_and]
      exact ⟨a, _, rfl, b, rest, rfl, rfl, rfl⟩
    | mul a b =>
      refine ⟨4, a.encode ++ (b.encode ++ rest), by simp [Node.encode], ?_⟩
      rw [if_neg (by decide), if_neg (by decide), if_neg (by decide), if_neg (by decide), if_pos rfl]
      simp only [Emission.bind_ok_iff, operand _ _ _, Emission.pure_ok_iff, true_and]
      exact ⟨a, _, rfl, b, rest, rfl, rfl, rfl⟩

/-- The sections of a circuit in the order they are read. -/
theorem encode_eq (circuit : Circuit (ZMod p)) :
    circuit.encode = circuitEncodingVersion ::
      (Reader.encodeList Node.encode circuit.nodes ++ Reader.encodeList NodeId.encode circuit.outputs) := by
  simp [encode, Reader.encodeList]

/-- The node and output lists that the sections of a circuit hold. -/
theorem readSections_canonical [NeZero p] :
    (readSections : Reader CircuitError (List (Node (ZMod p)) × List NodeId)).Canonical
      (fun sections => circuitEncodingVersion ::
        (Reader.encodeList Node.encode sections.1 ++ Reader.encodeList NodeId.encode sections.2))
      fun sections => sections.1.length ≤ maxCircuitNodes ∧ sections.2.length < 2 ^ 32 := by
  intro bytes sections rest
  simp only [readSections, Emission.bind_ok_iff, (Reader.readU8_canonical CircuitError.unexpectedEnd) _ _ _,
    Emission.reject_ok_iff, not_not, not_lt, (Reader.readU32_canonical CircuitError.unexpectedEnd) _ _ _,
    (Reader.readMany_canonical readNode_canonical _) _ _ _, (Reader.readList_canonical CircuitError.unexpectedEnd
      (readNodeId_canonical CircuitError.unexpectedEnd)) _ _ _, Emission.pure_ok_iff, true_and]
  constructor
  · rintro ⟨version, _, rfl, _, _, ⟨rfl, rfl⟩, numNodes, _, rfl, _, _, ⟨bounded, rfl⟩, nodes, _, ⟨⟨size, _⟩, rfl⟩,
      outputs, _, ⟨⟨short, _⟩, rfl⟩, rfl, rfl⟩
    exact ⟨⟨size ▸ bounded, short⟩, by simp [Reader.encodeList, size]⟩
  · rintro ⟨⟨bounded, short⟩, rfl⟩
    have kept : (UInt32.ofNat sections.1.length).toNat = sections.1.length :=
      UInt32.toNat_ofNat_of_lt' (bounded.trans_lt (by decide))
    refine ⟨circuitEncodingVersion, Reader.encodeList Node.encode sections.1 ++
        Reader.encodeList NodeId.encode sections.2 ++ rest, rfl, (), _, ⟨rfl, rfl⟩,
      UInt32.ofNat sections.1.length, _, ?_, (), _, ⟨kept.trans_le bounded, rfl⟩, sections.1, _, ⟨⟨kept.symm, fun _ _ => trivial⟩, rfl⟩, sections.2, rest,
      ⟨⟨short, fun _ _ => trivial⟩, rfl⟩, rfl, rfl⟩
    rw [kept]
    simp only [Reader.encodeList, List.append_assoc]

/-- The accepted byte strings are the encodings of the well-formed circuits within the limits. -/
theorem deserialize_ok_iff [NeZero p] {bytes : Bytes} {circuit : Circuit (ZMod p)} :
    deserialize bytes = .ok circuit ↔ circuit.WellFormed ∧ circuit.nodes.length ≤ maxCircuitNodes ∧
      circuit.outputs.length < 2 ^ 32 ∧ bytes = circuit.encode := by
  simp only [deserialize, Outcome.bind_ok_iff, Prod.exists, readSections_canonical.readWhole_ok_iff, validate_ok_iff,
    exists_const, Outcome.ok.injEq, encode_eq]
  constructor
  · rintro ⟨nodes, outputs, ⟨⟨bounded, short⟩, rfl⟩, valid, rfl⟩
    exact ⟨valid, bounded, short, rfl⟩
  · rintro ⟨valid, bounded, short, rfl⟩
    have same : (⟨circuit.nodes, circuit.nodes.countP Node.isSecretInput, circuit.nodes.countP Node.isPublicInput,
        circuit.outputs⟩ : Circuit (ZMod p)) = circuit := by
      rw [valid.secretInputs, valid.publicInputs]
    exact ⟨circuit.nodes, circuit.outputs, ⟨⟨bounded, short⟩, rfl⟩, same.symm ▸ valid, same⟩

theorem serialize_ok_iff {ε : Type} {circuit : Circuit (ZMod p)} {bytes : Bytes} :
    (circuit.serialize : Outcome ε Bytes) = .ok bytes ↔
      circuit.nodes.length < 2 ^ 32 ∧ circuit.outputs.length < 2 ^ 32 ∧ circuit.encode = bytes := by
  simp only [serialize, Outcome.bind_ok_iff, Outcome.assert_ok_iff, exists_const, Outcome.ok.injEq]

/-- Well-formed circuits with one encoding are equal, with their input counts. -/
theorem WellFormed.eq_of_encode_eq [NeZero p] {left right : Circuit (ZMod p)} (valid : left.WellFormed)
    (valid' : right.WellFormed) (nodes : left.nodes.length < 2 ^ 32) (nodes' : right.nodes.length < 2 ^ 32)
    (outputs : left.outputs.length < 2 ^ 32) (outputs' : right.outputs.length < 2 ^ 32)
    (same : left.encode = right.encode) : left = right := by
  have readNodes := Reader.readList_canonical CircuitError.unexpectedEnd (readNode_canonical (p := p))
  have readOutputs := Reader.readList_canonical CircuitError.unexpectedEnd
    (readNodeId_canonical CircuitError.unexpectedEnd)
  rw [encode_eq, encode_eq, List.cons_inj_right] at same
  obtain ⟨sameNodes, rest⟩ := readNodes.append_inj ⟨nodes, fun _ _ => trivial⟩ ⟨nodes', fun _ _ => trivial⟩ same
  rw [← List.append_nil (Reader.encodeList _ left.outputs), ← List.append_nil (Reader.encodeList _ right.outputs)] at rest
  obtain ⟨sameOutputs, -⟩ := readOutputs.append_inj ⟨outputs, fun _ _ => trivial⟩ ⟨outputs', fun _ _ => trivial⟩ rest
  have secrets := valid.secretInputs.symm.trans (sameNodes ▸ valid'.secretInputs)
  have publics := valid.publicInputs.symm.trans (sameNodes ▸ valid'.publicInputs)
  cases left
  cases right
  simp_all

/-- Serializing and deserializing are inverse on the validated circuits within the
limits, and the bytes hashed for an id determine a validated circuit. -/
theorem serialize_bijective [NeZero p] :
    (∀ circuit : Circuit (ZMod p), circuit.validate = .ok () → circuit.nodes.length ≤ maxCircuitNodes →
        circuit.outputs.length < 2 ^ 32 →
        ∃ bytes, (circuit.serialize : Outcome CircuitError Bytes) = .ok bytes ∧ deserialize bytes = .ok circuit) ∧
      (∀ (bytes : Bytes) (circuit : Circuit (ZMod p)), deserialize bytes = .ok circuit →
        (circuit.serialize : Outcome CircuitError Bytes) = .ok bytes ∧ circuit.validate = .ok ()) ∧
      ∀ (left right : Circuit (ZMod p)) (bytes bytes' : Bytes), left.validate = .ok () → right.validate = .ok () →
        (left.serialize : Outcome CircuitError Bytes) = .ok bytes →
        (right.serialize : Outcome CircuitError Bytes) = .ok bytes' →
        lengthPrefixed circuitIdDomain ++ bytes = lengthPrefixed circuitIdDomain ++ bytes' → left = right := by
  have small {n : ℕ} (bounded : n ≤ maxCircuitNodes) : n < 2 ^ 32 := bounded.trans_lt (by decide)
  refine ⟨fun circuit validated bounded short => ?_, fun bytes circuit read => ?_,
    fun left right bytes bytes' validated validated' written written' same => ?_⟩
  · refine ⟨circuit.encode, serialize_ok_iff.mpr ⟨small bounded, short, rfl⟩, ?_⟩
    exact deserialize_ok_iff.mpr ⟨validate_ok_iff.mp validated, bounded, short, rfl⟩
  · obtain ⟨valid, bounded, short, rfl⟩ := deserialize_ok_iff.mp read
    exact ⟨serialize_ok_iff.mpr ⟨small bounded, short, rfl⟩, validate_ok_iff.mpr valid⟩
  · obtain ⟨nodes, outputs, rfl⟩ := serialize_ok_iff.mp written
    obtain ⟨nodes', outputs', rfl⟩ := serialize_ok_iff.mp written'
    exact (validate_ok_iff.mp validated).eq_of_encode_eq (validate_ok_iff.mp validated') nodes nodes' outputs outputs'
      (List.append_cancel_left same)

/-- A product of a secret input with a constant of the field of seven elements is read back. -/
theorem serialize_bijective_product :
    ∃ bytes, ((⟨[.secretInput, .constant 3, .mul ⟨0⟩ ⟨1⟩], 1, 0, [⟨2⟩]⟩ : Circuit (ZMod 7)).serialize :
        Outcome CircuitError Bytes) = .ok bytes ∧
      deserialize bytes = .ok (⟨[.secretInput, .constant 3, .mul ⟨0⟩ ⟨1⟩], 1, 0, [⟨2⟩]⟩ : Circuit (ZMod 7)) :=
  serialize_bijective.1 _ (by decide) (by decide) (by decide)

end Circuit

end PaymentAuth
