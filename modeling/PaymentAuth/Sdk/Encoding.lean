import PaymentAuth.Proof.Encoding

namespace PaymentAuth.Sdk

open Library Proof

inductive SdkError where
  | invalidPayment
  | invalidPolicy
  | invalidWitness
  | artifactMalformed
  | versionUnsupported
  | backendUnsupported
  | backendMismatch
  | paymentMismatch
  | policyMismatch
  | circuitMismatch
  | proofInvalid
  | authorizationGenerationFailed
  | selfVerificationFailed
deriving DecidableEq, Repr

/-- Current authorization artifact encoding version. -/
def authorizationVersion : UInt8 := 1

/-- Protocol versions accepted during decoding. -/
def supportedProtocolVersions : List UInt8 := [1, 2]

/-- Width of the fixed-size header in bytes. -/
def headerLen : ℕ := 1 + 1 + 16 + 32 + 32 + 32

/-- Complete authorization artifact: the binding context and the proof. -/
structure Authorization where
  version : UInt8
  protocolVersion : UInt8
  backendId : BackendId
  paymentId : Bytes32
  policyId : Digest
  circuitId : Digest
  proof : NonInteractiveProof
deriving DecidableEq

/-- Encodes an artifact into its canonical bytes. -/
def serialize (authorization : Authorization) : Bytes :=
  [authorization.version, authorization.protocolVersion] ++ authorization.backendId.bytes ++
    authorization.paymentId.bytes ++ authorization.policyId.bytes ++ authorization.circuitId.bytes ++
    serializeProof authorization.proof

/-- The error of an artifact whose proof fails to decode. -/
def proofDecodeError : ProofError → SdkError
  | .invalidVersion => .versionUnsupported
  | .unsupportedBackend => .backendUnsupported
  | _ => .artifactMalformed

def decodeProof (bytes : Bytes) : Outcome SdkError NonInteractiveProof :=
  (deserializeProof bytes).mapError proofDecodeError

/-- Decodes an artifact, enforcing the compatibility rules in order. -/
def deserialize (bytes : Bytes) : Outcome SdkError Authorization := do
  Outcome.reject (bytes.length < headerLen) .artifactMalformed
  let (version, bytes) ← Reader.readU8 .artifactMalformed bytes
  Outcome.reject (version ≠ authorizationVersion) .versionUnsupported
  let (protocolVersion, bytes) ← Reader.readU8 .artifactMalformed bytes
  Outcome.reject (protocolVersion ∉ supportedProtocolVersions) .versionUnsupported
  let (backendId, bytes) ← readBackendId .artifactMalformed bytes
  Outcome.reject (backendId ∉ supportedBackendIds) .backendUnsupported
  let (paymentId, bytes) ← readDigest .artifactMalformed bytes
  let (policyId, bytes) ← readDigest .artifactMalformed bytes
  let (circuitId, proofBytes) ← readDigest .artifactMalformed bytes
  let proof ← decodeProof proofBytes
  .ok ⟨version, protocolVersion, backendId, paymentId, policyId, circuitId, proof⟩

/-- An artifact in the shape the decoder accepts. -/
structure Authorization.Encodable (authorization : Authorization) : Prop where
  version : authorization.version = authorizationVersion
  protocolVersion : authorization.protocolVersion ∈ supportedProtocolVersions
  backendId : authorization.backendId ∈ supportedBackendIds
  proof : authorization.proof.Encodable

theorem headerLen_le_serialize (authorization : Authorization) :
    headerLen ≤ (serialize authorization).length := by
  have backend := authorization.backendId.size
  have payment := authorization.paymentId.size
  have policy := authorization.policyId.size
  have circuit := authorization.circuitId.size
  simp only [serialize, List.length_append, List.length_cons, List.length_nil, backend, payment, policy, circuit]
  unfold headerLen backendIdLen digestLen
  omega

/-- The decoder accepts exactly the encodings of the artifacts in its shape. -/
theorem deserialize_ok_iff {bytes : Bytes} {authorization : Authorization} :
    deserialize bytes = .ok authorization ↔ authorization.Encodable ∧ bytes = serialize authorization := by
  simp only [deserialize, decodeProof, Outcome.bind_ok_iff, Outcome.reject_ok_iff, Prod.exists,
    (Reader.readU8_canonical SdkError.artifactMalformed) _ _ _, (readBackendId_canonical SdkError.artifactMalformed) _ _ _,
    (readDigest_canonical SdkError.artifactMalformed) _ _ _, Outcome.mapError_ok_iff, deserializeProof_ok_iff,
    Outcome.ok.injEq, exists_const, true_and, not_not]
  constructor
  · rintro ⟨_, version, _, rfl, rfl, protocolVersion, _, rfl, knownVersion, backendId, _, rfl, knownBackend,
      paymentId, _, rfl, policyId, _, rfl, circuitId, _, rfl, proof, ⟨encodable, rfl⟩, rfl⟩
    exact ⟨⟨rfl, knownVersion, knownBackend, encodable⟩, by simp [serialize]⟩
  · rintro ⟨encodable, rfl⟩
    exact ⟨(headerLen_le_serialize authorization).not_gt, authorization.version, _,
      by simp only [serialize, List.append_assoc, List.cons_append, List.nil_append], encodable.version,
      authorization.protocolVersion, _, rfl, encodable.protocolVersion, authorization.backendId, _, rfl,
      encodable.backendId, authorization.paymentId, _, rfl, authorization.policyId, _, rfl,
      authorization.circuitId, _, rfl, authorization.proof, ⟨encodable.proof, rfl⟩, rfl⟩

/-- What either decoder accepts is the one encoding of its result, and every
artifact in the decoder's shape survives the wire. -/
theorem wire_canonical :
    (∀ bytes authorization, deserialize bytes = .ok authorization → serialize authorization = bytes) ∧
      (∀ bytes proof, deserializeProof bytes = .ok proof → serializeProof proof = bytes) ∧
        ∀ authorization : Authorization, authorization.Encodable →
          deserialize (serialize authorization) = .ok authorization := by
  refine ⟨?_, ?_, ?_⟩
  · intro bytes authorization decoded
    exact (deserialize_ok_iff.mp decoded).2.symm
  · intro bytes proof decoded
    exact (deserializeProof_ok_iff.mp decoded).2.symm
  · intro authorization encodable
    exact deserialize_ok_iff.mpr ⟨encodable, rfl⟩

/-- A view of every kind of operation. -/
def sampleView : Mpcith.PartyView where
  repetitionId := ⟨0⟩
  partyId := 1
  inputShares := [1]
  localOperations := [.add ⟨1⟩ 0, .mulPublic ⟨2⟩ 1 (-1), .beaverMul ⟨3⟩ 0 0 1 (-1)]
  tripleShares := [⟨1, 0, -1⟩]
  openedValues := [1, -1]

def sampleAuthorization : Authorization where
  version := 1
  protocolVersion := 2
  backendId := (sha256Backend sha256).id
  paymentId := zeroDigest
  policyId := zeroDigest
  circuitId := zeroDigest
  proof := {
    version := 2
    protocolId := 1
    backendId := shake256BackendId
    statement := ⟨zeroDigest, [1], [0]⟩
    repetitions := [{
      commitments := List.replicate 3 zeroDigest
      challenge := ⟨0⟩
      openedViews := [sampleView, sampleView]
      openingRandomness := [zeroDigest.bytes, zeroDigest.bytes]
      hiddenBroadcasts := [1]
      hiddenOutputShares := [-1] }] }

theorem sampleOpening_encodable : OpeningEncodable (sampleView, zeroDigest.bytes) where
  view := ⟨by decide, by decide, by simp [sampleView, Mpcith.LocalOperation.Encodable], by decide, by decide⟩
  viewLength := by simp [Mpcith.encodeView, Mpcith.RepetitionId.encode, sampleView, Mpcith.LocalOperation.size]
  randomness := rfl

theorem sampleAuthorization_encodable : sampleAuthorization.Encodable where
  version := rfl
  protocolVersion := by decide
  backendId := by decide
  proof := {
    version := rfl
    protocolId := rfl
    backendId := by decide
    statement := ⟨by decide, by decide⟩
    repetitions := by decide
    each := by
      intro repetition member
      obtain rfl := List.mem_singleton.mp member
      refine ⟨rfl, by decide, by decide, rfl, rfl, ?_⟩
      intro opening paired
      simp only [List.zip_cons_cons, List.zip_nil_left, List.mem_cons, List.not_mem_nil, or_false, or_self] at paired
      rw [paired]
      exact sampleOpening_encodable }

theorem wire_canonical_sample : deserialize (serialize sampleAuthorization) = .ok sampleAuthorization :=
  wire_canonical.2.2 sampleAuthorization sampleAuthorization_encodable

end PaymentAuth.Sdk
