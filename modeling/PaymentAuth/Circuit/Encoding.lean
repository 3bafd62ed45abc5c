import PaymentAuth.Circuit.Basic
import PaymentAuth.Crypto.Backend
import PaymentAuth.Crypto.Field

namespace PaymentAuth

open Library

/-- Semantic identity of a circuit. -/
abbrev CircuitId := Digest

/-- Current canonical encoding version. -/
def circuitEncodingVersion : UInt8 := 1

/-- Domain separator binding circuit ids to this application and encoding version. -/
def circuitIdDomain : Bytes := ascii "private-payment-auth/circuit/v1"

def NodeId.encode (id : NodeId) : Bytes := toBeBytes 4 id.asUsize

/-- A node as a one-byte variant tag followed by its payload. -/
def Node.encode {p : ℕ} : Node (ZMod p) → Bytes
  | .secretInput => [0]
  | .publicInput => [1]
  | .constant value => 2 :: elementToBeBytes value
  | .add a b => 3 :: (a.encode ++ b.encode)
  | .mul a b => 4 :: (a.encode ++ b.encode)

namespace Circuit

variable {p : ℕ} {ε : Type}

/-- The version, the nodes and the outputs; the counts keep their low 32 bits. -/
def encode (circuit : Circuit (ZMod p)) : Bytes :=
  circuitEncodingVersion ::
    (toBeBytes 4 circuit.nodes.length ++ circuit.nodes.flatMap Node.encode ++
      toBeBytes 4 circuit.outputs.length ++ circuit.outputs.flatMap NodeId.encode)

/-- Serializes a circuit; a node or output count beyond `u32` aborts. -/
def serialize (circuit : Circuit (ZMod p)) : Outcome ε Bytes := do
  Outcome.assert (circuit.nodes.length < 2 ^ 32)
  Outcome.assert (circuit.outputs.length < 2 ^ 32)
  .ok circuit.encode

/-- Computes the domain-separated semantic id of a circuit. -/
def computeId (sha256 : Bytes → Digest) (circuit : Circuit (ZMod p)) : Outcome ε CircuitId := do
  let bytes ← circuit.serialize
  .ok (sha256HashDomain sha256 circuitIdDomain bytes)

theorem computeId_ok_iff {sha256 : Bytes → Digest} {circuit : Circuit (ZMod p)} {id : CircuitId} :
    (circuit.computeId sha256 : Outcome ε CircuitId) = .ok id ↔
      circuit.nodes.length < 2 ^ 32 ∧ circuit.outputs.length < 2 ^ 32 ∧
        sha256HashDomain sha256 circuitIdDomain circuit.encode = id := by
  simp only [computeId, serialize, Outcome.bind_ok_iff, Outcome.assert_ok_iff, exists_const, Outcome.ok.injEq]
  constructor
  · rintro ⟨_, ⟨nodes, outputs, rfl⟩, computed⟩
    exact ⟨nodes, outputs, computed⟩
  · rintro ⟨nodes, outputs, computed⟩
    exact ⟨_, ⟨nodes, outputs, rfl⟩, computed⟩

theorem computeId_ok_bounds {sha256 : Bytes → Digest} {circuit : Circuit (ZMod p)} {id : CircuitId}
    (success : (circuit.computeId sha256 : Outcome ε CircuitId) = .ok id) :
    circuit.nodes.length < 2 ^ 32 ∧ circuit.outputs.length < 2 ^ 32 :=
  ⟨(computeId_ok_iff.mp success).1, (computeId_ok_iff.mp success).2.1⟩

theorem computeId_total (sha256 : Bytes → Digest) {circuit : Circuit (ZMod p)}
    (nodes : circuit.nodes.length < 2 ^ 32) (outputs : circuit.outputs.length < 2 ^ 32) :
    (circuit.computeId sha256 : Outcome ε CircuitId) =
      .ok (sha256HashDomain sha256 circuitIdDomain circuit.encode) := by
  simp only [computeId, serialize, Outcome.assert_of nodes, Outcome.assert_of outputs, Outcome.ok_bind]

end Circuit

end PaymentAuth
