import PaymentAuth.Proof.FiatShamir

namespace PaymentAuth

open Library

section Readers

variable {ε : Type} (malformed : ε)

def readBackendId : Reader ε BackendId := do
  let raw ← Reader.readBytes malformed backendIdLen
  if size : raw.length = backendIdLen then return ⟨raw, size⟩
  else liftM (.error malformed : Outcome ε BackendId)

theorem readBackendId_canonical : (readBackendId malformed).Canonical BackendId.bytes fun _ => True :=
  Reader.readSized_canonical _ BackendId.size (fun _ => rfl) fun _ _ => rfl

end Readers

namespace Proof

open Mpcith

/-- Proof-encoding version. -/
def encodingVersion : UInt8 := 2

def protocolId : UInt8 := 1

def shake256BackendId : BackendId :=
  ⟨[0x73, 0x68, 0x61, 0x6b, 0x65, 0x32, 0x35, 0x36, 0x2d, 0x76, 0x31, 0, 0, 0, 0, 0], rfl⟩

/-- The SHA-256 and SHAKE256 backends; their ids do not depend on the hash. -/
def supportedBackendIds : List BackendId := [(sha256Backend sha256).id, shake256BackendId]

/-- Maximum number of repetitions a decoder accepts. -/
def maxProofRepetitions : ℕ := 10000

/-- One repetition of a non-interactive proof. -/
structure ProofRepetition where
  commitments : List ViewCommitment
  challenge : Challenge
  openedViews : List PartyView
  openingRandomness : List Bytes
  hiddenBroadcasts : List FieldElement
  hiddenOutputShares : List FieldElement
deriving DecidableEq

/-- A complete proof of a circuit evaluation. -/
structure NonInteractiveProof where
  version : UInt8
  protocolId : UInt8
  backendId : BackendId
  statement : Statement
  repetitions : List ProofRepetition
deriving DecidableEq

/-- A view after its length, followed by its randomness. -/
def encodeOpening (opening : PartyView × Bytes) : Bytes :=
  lengthPrefixed (encodeView opening.1) ++ opening.2

def ProofRepetition.encode (repetition : ProofRepetition) : Bytes :=
  repetition.commitments.flatMap Digest.bytes ++ [PartyId.get repetition.challenge.hiddenParty] ++
    Reader.encodeList elementToBeBytes repetition.hiddenBroadcasts ++
    Reader.encodeList elementToBeBytes repetition.hiddenOutputShares ++
    toBeBytes 4 repetition.openedViews.length ++
    (repetition.openedViews.zip repetition.openingRandomness).flatMap encodeOpening

/-- Serializes a proof; its counts and lengths keep their low 32 bits. -/
def serializeProof (proof : NonInteractiveProof) : Bytes :=
  [proof.version, proof.protocolId] ++ proof.backendId.bytes ++ proof.statement.encode ++
    Reader.encodeList ProofRepetition.encode proof.repetitions

def decodeOpening : Reader ProofError (PartyView × Bytes) := do
  let len ← Reader.readU32 .malformedEncoding
  let viewBytes ← Reader.readBytes .malformedEncoding len.toNat
  let (view, consumed) ← liftM ((decodeView viewBytes).mapError fun _ => ProofError.malformedEncoding)
  Emission.reject (consumed ≠ viewBytes.length) .malformedEncoding
  let randomness ← Reader.readBytes .malformedEncoding randomnessLen
  return (view, randomness)

def decodeRepetition : Reader ProofError ProofRepetition := do
  let commitments ← Reader.readMany (readDigest .malformedEncoding) 3
  let hiddenParty ← readPartyId .malformedEncoding
  let hiddenBroadcasts ← Reader.readList .malformedEncoding (readElement .malformedEncoding)
  let hiddenOutputShares ← Reader.readList .malformedEncoding (readElement .malformedEncoding)
  let opened ← Reader.readU32 .malformedEncoding
  Emission.reject (opened.toNat ≠ 2) .malformedEncoding
  let openings ← Reader.readMany decodeOpening opened.toNat
  return ⟨commitments, ⟨hiddenParty⟩, openings.map Prod.fst, openings.map Prod.snd, hiddenBroadcasts,
    hiddenOutputShares⟩

/-- Reads the repetitions after their count, which is bounded. -/
def decodeRepetitions : Reader ProofError (List ProofRepetition) := do
  let count ← Reader.readU32 .malformedEncoding
  Emission.reject (count.toNat > maxProofRepetitions) .excessiveRepetitions
  Reader.readMany decodeRepetition count.toNat

def decodeProof : Reader ProofError NonInteractiveProof := do
  let version ← Reader.readU8 .malformedEncoding
  Emission.reject (version ≠ encodingVersion) .invalidVersion
  let protocol ← Reader.readU8 .malformedEncoding
  Emission.reject (protocol ≠ protocolId) .invalidVersion
  let backendId ← readBackendId .malformedEncoding
  Emission.reject (backendId ∉ supportedBackendIds) .unsupportedBackend
  let statement ← Statement.decodePrefix
  let repetitions ← decodeRepetitions
  return ⟨version, protocol, backendId, statement, repetitions⟩

/-- Parses a proof, rejecting trailing bytes. -/
def deserializeProof (bytes : Bytes) : Outcome ProofError NonInteractiveProof := do
  let (proof, rest) ← decodeProof bytes
  Outcome.reject (rest ≠ []) .malformedEncoding
  .ok proof

/-- Openings whose lengths fit their fields. -/
structure OpeningEncodable (opening : PartyView × Bytes) : Prop where
  view : opening.1.Encodable
  viewLength : (encodeView opening.1).length < 2 ^ 32
  randomness : opening.2.length = randomnessLen

/-- A repetition in the shape the decoder accepts. -/
structure ProofRepetition.Encodable (repetition : ProofRepetition) : Prop where
  commitments : repetition.commitments.length = 3
  hiddenBroadcasts : repetition.hiddenBroadcasts.length < 2 ^ 32
  hiddenOutputShares : repetition.hiddenOutputShares.length < 2 ^ 32
  openedViews : repetition.openedViews.length = 2
  openingRandomness : repetition.openingRandomness.length = 2
  openings : ∀ opening ∈ repetition.openedViews.zip repetition.openingRandomness, OpeningEncodable opening

/-- A proof in the shape the decoder accepts. -/
structure NonInteractiveProof.Encodable (proof : NonInteractiveProof) : Prop where
  version : proof.version = encodingVersion
  protocolId : proof.protocolId = Proof.protocolId
  backendId : proof.backendId ∈ supportedBackendIds
  statement : proof.statement.Encodable
  repetitions : proof.repetitions.length ≤ maxProofRepetitions
  each : ∀ repetition ∈ proof.repetitions, repetition.Encodable

theorem decodeOpening_canonical : decodeOpening.Canonical encodeOpening OpeningEncodable := by
  intro bytes opening rest
  simp only [decodeOpening, Emission.bind_ok_iff, (Reader.readU32_canonical ProofError.malformedEncoding) _ _ _,
    (Reader.readBytes_canonical ProofError.malformedEncoding _) _ _ _, Emission.liftM_ok_iff, Prod.exists,
    Outcome.mapError_ok_iff, Emission.reject_ok_iff, Emission.pure_ok_iff, true_and, not_not, id]
  constructor
  · rintro ⟨len, _, rfl, viewBytes, _, ⟨size, rfl⟩, view, _, _, ⟨decoded, rfl⟩, _, _, ⟨rfl, rfl⟩, randomness, _,
      ⟨full, rfl⟩, rfl, rfl⟩
    obtain ⟨encodable, rfl⟩ := decodeView_ok_iff.mp decoded
    refine ⟨⟨encodable, by rw [size]; exact len.toNat_lt, full⟩, ?_⟩
    simp [encodeOpening, lengthPrefixed, size]
  · rintro ⟨encodable, rfl⟩
    have kept : (UInt32.ofNat (encodeView opening.1).length).toNat = (encodeView opening.1).length :=
      UInt32.toNat_ofNat_of_lt' encodable.viewLength
    refine ⟨UInt32.ofNat (encodeView opening.1).length, encodeView opening.1 ++ (opening.2 ++ rest), ?_,
      encodeView opening.1, opening.2 ++ rest, ⟨kept.symm, rfl⟩, opening.1, (encodeView opening.1).length,
      opening.2 ++ rest, ⟨decodeView_ok_iff.mpr ⟨encodable.view, rfl⟩, rfl⟩, (), _, ⟨rfl, rfl⟩, opening.2, rest,
      ⟨encodable.randomness, rfl⟩, rfl, rfl⟩
    rw [kept]
    simp [encodeOpening, lengthPrefixed]

theorem decodeRepetition_canonical :
    decodeRepetition.Canonical ProofRepetition.encode ProofRepetition.Encodable := by
  have readDigests := Reader.readMany_canonical (readDigest_canonical ProofError.malformedEncoding) 3
  have readElements := Reader.readList_canonical ProofError.malformedEncoding
    (readElement_canonical ProofError.malformedEncoding)
  intro bytes repetition rest
  simp only [decodeRepetition, Emission.bind_ok_iff, readDigests _ _ _,
    (readPartyId_canonical ProofError.malformedEncoding) _ _ _, readElements _ _ _,
    (Reader.readU32_canonical ProofError.malformedEncoding) _ _ _, Emission.reject_ok_iff,
    (Reader.readMany_canonical decodeOpening_canonical _) _ _ _, Emission.pure_ok_iff, true_and, not_not]
  constructor
  · rintro ⟨commitments, _, ⟨⟨three, _⟩, rfl⟩, party, _, rfl, broadcasts, _, ⟨⟨broadcastsLen, _⟩, rfl⟩, shares, _,
      ⟨⟨sharesLen, _⟩, rfl⟩, opened, _, rfl, _, _, ⟨two, rfl⟩, openings, _, ⟨⟨size, each⟩, rfl⟩, rfl, rfl⟩
    rw [two] at size
    have paired : (openings.map Prod.fst).zip (openings.map Prod.snd) = openings := by
      rw [← List.unzip_fst, ← List.unzip_snd, List.zip_unzip]
    refine ⟨⟨three, broadcastsLen, sharesLen, by rw [List.length_map, size], by rw [List.length_map, size],
      by rwa [paired]⟩, ?_⟩
    simp [ProofRepetition.encode, paired, size, two]
  · rintro ⟨encodable, rfl⟩
    have openedViews := encodable.openedViews
    have openingRandomness := encodable.openingRandomness
    have same : repetition.openedViews.length = repetition.openingRandomness.length := by
      rw [openedViews, openingRandomness]
    refine ⟨repetition.commitments, _, ⟨⟨encodable.commitments, fun _ _ => trivial⟩, ?_⟩,
      repetition.challenge.hiddenParty, _, rfl,
      repetition.hiddenBroadcasts, _, ⟨⟨encodable.hiddenBroadcasts, fun _ _ => trivial⟩, rfl⟩,
      repetition.hiddenOutputShares, _, ⟨⟨encodable.hiddenOutputShares, fun _ _ => trivial⟩, rfl⟩,
      2, (repetition.openedViews.zip repetition.openingRandomness).flatMap encodeOpening ++ rest, rfl, (), _, ⟨rfl, rfl⟩,
      repetition.openedViews.zip repetition.openingRandomness, rest,
      ⟨⟨by rw [List.length_zip, ← same, min_self, openedViews]; rfl, encodable.openings⟩, rfl⟩, ?_, rfl⟩
    · simp [ProofRepetition.encode, openedViews]
    · rw [List.map_fst_zip same.le, List.map_snd_zip same.ge]

theorem decodeRepetitions_canonical :
    decodeRepetitions.Canonical (Reader.encodeList ProofRepetition.encode) fun repetitions =>
      repetitions.length ≤ maxProofRepetitions ∧ ∀ repetition ∈ repetitions, repetition.Encodable := by
  intro bytes repetitions rest
  simp only [decodeRepetitions, Emission.bind_ok_iff, (Reader.readU32_canonical ProofError.malformedEncoding) _ _ _,
    Emission.reject_ok_iff, (Reader.readMany_canonical decodeRepetition_canonical _) _ _ _, true_and, not_lt,
    Reader.encodeList]
  constructor
  · rintro ⟨count, _, rfl, _, _, ⟨bounded, rfl⟩, ⟨size, each⟩, rfl⟩
    rw [size]
    exact ⟨⟨bounded, each⟩, (List.append_assoc _ _ _).symm⟩
  · rintro ⟨⟨bounded, each⟩, rfl⟩
    have kept : (UInt32.ofNat repetitions.length).toNat = repetitions.length :=
      UInt32.toNat_ofNat_of_lt' (bounded.trans_lt (by decide))
    exact ⟨UInt32.ofNat repetitions.length, _, by rw [kept, List.append_assoc], (), _,
      ⟨by rwa [kept], rfl⟩, ⟨kept.symm, each⟩, rfl⟩

theorem decodeProof_canonical :
    decodeProof.Canonical serializeProof NonInteractiveProof.Encodable := by
  intro bytes proof rest
  simp only [decodeProof, Emission.bind_ok_iff, (Reader.readU8_canonical ProofError.malformedEncoding) _ _ _,
    Emission.reject_ok_iff, (readBackendId_canonical ProofError.malformedEncoding) _ _ _,
    Statement.decodePrefix_canonical _ _ _, decodeRepetitions_canonical _ _ _, Emission.pure_ok_iff, true_and, not_not]
  constructor
  · rintro ⟨version, _, rfl, _, _, ⟨rfl, rfl⟩, protocol, _, rfl, _, _, ⟨rfl, rfl⟩, backendId, _, rfl, _, _,
      ⟨supported, rfl⟩, statement, _, ⟨encodable, rfl⟩, repetitions, _, ⟨⟨bounded, each⟩, rfl⟩, rfl, rfl⟩
    exact ⟨⟨rfl, rfl, supported, encodable, bounded, each⟩, by simp [serializeProof]⟩
  · rintro ⟨encodable, rfl⟩
    exact ⟨proof.version, _, by simp only [serializeProof, List.append_assoc, List.cons_append, List.nil_append], (), _,
      ⟨encodable.version, rfl⟩, proof.protocolId, _, rfl, (), _, ⟨encodable.protocolId, rfl⟩,
      proof.backendId, _, rfl, (), _, ⟨encodable.backendId, rfl⟩, proof.statement, _, ⟨encodable.statement, rfl⟩,
      proof.repetitions, rest, ⟨⟨encodable.repetitions, encodable.each⟩, rfl⟩, rfl, rfl⟩

/-- The decoder accepts exactly the encodings of the proofs in its shape. -/
theorem deserializeProof_ok_iff {bytes : Bytes} {proof : NonInteractiveProof} :
    deserializeProof bytes = .ok proof ↔ proof.Encodable ∧ bytes = serializeProof proof := by
  simp only [deserializeProof, Outcome.bind_ok_iff, Prod.exists, decodeProof_canonical _ _ _, Outcome.reject_ok_iff,
    exists_const, not_not, Outcome.ok.injEq]
  constructor
  · rintro ⟨_, _, ⟨encodable, rfl⟩, rfl, rfl⟩
    exact ⟨encodable, List.append_nil _⟩
  · rintro ⟨encodable, rfl⟩
    exact ⟨proof, [], ⟨encodable, (List.append_nil _).symm⟩, rfl, rfl⟩

end Proof

end PaymentAuth
