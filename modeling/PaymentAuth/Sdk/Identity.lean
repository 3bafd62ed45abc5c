import Mathlib.Data.Fintype.Defs
import PaymentAuth.Sdk.Workflow

/-! The messages the system hashes: ids, commitments, nonces and challenges never share one. -/

namespace PaymentAuth.Proof

open Library Mpcith

/-- Domain separator for proof ids. -/
def proofIdDomain : Bytes := ascii "private-payment-auth/proof/id/v2"

/-- Hash-based identifier of a complete proof. -/
abbrev ProofId := Digest

/-- Semantic identity of the whole proof. -/
def NonInteractiveProof.proofId (sha256 : Bytes → Digest) (proof : NonInteractiveProof) :
    Outcome ProofError ProofId :=
  .ok (sha256HashDomain sha256 proofIdDomain (Proof.serializeProof proof))

/-- The raw digest of the message that a repetition's challenge is derived from. -/
def fsDigest (backend : CryptoBackend) (statement : Statement) (sessions : List FsSession) (selector : ℕ) :
    Outcome ProofError Digest := do
  let input ← fsInput backend statement sessions selector
  .ok (backend.hashDomain domainFs input)

end PaymentAuth.Proof

namespace PaymentAuth.Sdk

open Library Mpcith Proof

/-- Domain separator for authorization ids. -/
def authorizationIdDomain : Bytes := ascii "private-payment-auth/authorization/v1"

/-- Stable identity of an artifact. -/
abbrev AuthorizationId := Digest

/-- The header of an artifact; its proof follows under a length prefix, which aborts
beyond `u32`. -/
def authorizationId (sha256 : Bytes → Digest) (authorization : Authorization) : Outcome SdkError AuthorizationId := do
  let proofBytes ← encodeLengthPrefixed (Proof.serializeProof authorization.proof)
  .ok (sha256HashDomain sha256 authorizationIdDomain ([authorization.version, authorization.protocolVersion] ++
    authorization.backendId.bytes ++ authorization.paymentId.bytes ++ authorization.policyId.bytes ++
    authorization.circuitId.bytes ++ proofBytes))

/-- What a digest is computed for. -/
inductive Purpose where
  | circuit
  | payment
  | policy
  | credential
  | view
  | fiatShamir
  | nonce
  | proof
  | authorization
deriving DecidableEq

instance : Fintype Purpose where
  elems := {.circuit, .payment, .policy, .credential, .view, .fiatShamir, .nonce, .proof, .authorization}
  complete := by
    intro purpose
    cases purpose <;> decide

/-- A joint transcript and the repetition that is selected in it. -/
structure Derivation where
  statement : Proof.Statement
  sessions : List FsSession
  selected : RepetitionId
deriving DecidableEq

/-- The message of `fsInput` under the SHA-256 backend. -/
def Derivation.message (derivation : Derivation) : Bytes :=
  domainFs ++ (sha256Backend sha256).id.bytes ++ [protocolVersion] ++ derivation.statement.encode ++
    Reader.encodeList FsSession.encode derivation.sessions ++ derivation.selected.encode

/-- A derivation that challenges are derived for, within the bounds of its encoding. -/
structure Derivation.Encodable (derivation : Derivation) : Prop where
  statement : derivation.statement.Encodable
  sessions : Admitted derivation.sessions
  short : derivation.sessions.length < 2 ^ 32

namespace Purpose

/-- The domain separator of a purpose; view commitments put their randomness in its place. -/
def domain : Purpose → Option Bytes
  | .circuit => some circuitIdDomain
  | .payment => some paymentIdDomain
  | .policy => some domainPolicy
  | .credential => some credentialCommitmentDomain
  | .view => none
  | .fiatShamir => some domainFs
  | .nonce => some nonceDomain
  | .proof => some proofIdDomain
  | .authorization => some authorizationIdDomain

theorem domain_injective : Function.Injective domain := by
  unfold Function.Injective
  decide +kernel

/-- Proof ids alone have a domain separator as long as the randomness of a commitment. -/
theorem eq_proof_of_length {purpose : Purpose} {separator : Bytes} (found : purpose.domain = some separator)
    (length : separator.length = randomnessLen) : purpose = .proof := by
  have only : ∀ purpose : Purpose, (purpose.domain.map List.length) = some randomnessLen → purpose = .proof := by
    decide +kernel
  apply only
  rw [found, Option.map_some, length]

end Purpose

/-- An object that is hashed. A transcript is hashed whole, or once for each of the two
blocks that a challenge is expanded to. -/
inductive Hashed where
  | circuit (circuit : Circuit FieldElement)
  | payment (payment : Payment)
  | policy (normal : Policy)
  | credential (secret : Bytes)
  | view (view : PartyView) (randomness : Bytes)
  | transcript (derivation : Derivation)
  | challenge (derivation : Derivation) (block : Fin 2)
  | nonce (paymentId policyId circuitId : Digest)
  | proof (proof : NonInteractiveProof)
  | authorization (authorization : Authorization)

namespace Hashed

def purpose : Hashed → Purpose
  | .circuit _ => .circuit
  | .payment _ => .payment
  | .policy _ => .policy
  | .credential _ => .credential
  | .view _ _ => .view
  | .transcript _ | .challenge _ _ => .fiatShamir
  | .nonce _ _ _ => .nonce
  | .proof _ => .proof
  | .authorization _ => .authorization

/-- What a message begins with, under a length prefix. -/
def tag : Hashed → Bytes
  | .view _ randomness => randomness
  | hashed => hashed.purpose.domain.getD []

def body : Hashed → Bytes
  | .circuit compiled => compiled.encode
  | .payment paid => paid.encode
  | .policy normal => toBeBytes 4 normal.encode.length ++ normal.encode
  | .credential secret => toBeBytes 4 secret.length ++ secret
  | .view opened _ => lengthPrefixed (commitmentMessage opened)
  | .transcript derivation => toBeBytes 4 derivation.message.length ++ derivation.message
  | .challenge derivation block => toBeBytes 4 block ++ derivation.message
  | .nonce paymentId policyId circuitId => paymentId.bytes ++ policyId.bytes ++ circuitId.bytes
  | .proof shown => Proof.serializeProof shown
  | .authorization artifact => [artifact.version, artifact.protocolVersion] ++
      artifact.backendId.bytes ++ artifact.paymentId.bytes ++ artifact.policyId.bytes ++
      artifact.circuitId.bytes ++ lengthPrefixed (Proof.serializeProof artifact.proof)

/-- The bytes that SHA-256 is applied to. -/
def message (hashed : Hashed) : Bytes := lengthPrefixed hashed.tag ++ hashed.body

/-- The code computes the digest for the object. -/
def Computes (sha256 : Bytes → Digest) : Hashed → Digest → Prop
  | .circuit compiled, digest => (compiled.computeId sha256 : Outcome PaymentError CircuitId) = .ok digest
  | .payment paid, digest => paid.semanticId sha256 = digest
  | .policy normal, digest => ∃ policy, policy.normalizeNode = normal ∧ policyId sha256 policy = .ok digest
  | .credential secret, digest => credentialCommitment sha256 secret = digest
  | .view opened randomness, digest => commitView (sha256Backend sha256) opened randomness = .ok digest
  | .transcript derivation, digest => ∃ selector,
      derivation.sessions[selector]?.map FsSession.repetitionId = some derivation.selected ∧
        fsDigest (sha256Backend sha256) derivation.statement derivation.sessions selector = .ok digest
  | .challenge derivation block, digest => ∃ selector,
      derivation.sessions[selector]?.map FsSession.repetitionId = some derivation.selected ∧
        ∃ input, fsInput (sha256Backend sha256) derivation.statement derivation.sessions selector = .ok input ∧
          (((sha256Backend sha256).expand domainFs input 64).drop (32 * block)).take 32 = digest.bytes
  | .nonce paymentId policyId circuitId, digest => deterministicNonce sha256 paymentId policyId circuitId = digest
  | .proof shown, digest => shown.proofId sha256 = .ok digest
  | .authorization artifact, digest => authorizationId sha256 artifact = .ok digest

/-- Objects within the bounds that their encodings assume. -/
def Encodable : Hashed → Prop
  | .circuit compiled => compiled.WellFormed ∧ compiled.nodes.length < 2 ^ 32 ∧ compiled.outputs.length < 2 ^ 32
  | .policy normal => normal.Short
  | .view opened randomness => opened.Encodable ∧ randomness.length = randomnessLen
  | .transcript derivation => derivation.Encodable ∧ derivation.message.length < 2 ^ 32
  | .challenge derivation _ => derivation.Encodable
  | .proof shown => shown.Encodable
  | .authorization artifact => artifact.proof.Encodable
  | .payment _ | .credential _ | .nonce _ _ _ => True

section Messages

variable {sha256 : Bytes → Digest} {hashed left right : Hashed} {digest : Digest}

/-- An expansion to two blocks is the two hashes. -/
private theorem expand_two_blocks (sha256 : Bytes → Digest) (domain data : Bytes) (block : Fin 2) :
    (((sha256Backend sha256).expand domain data 64).drop (32 * block)).take 32 =
      (sha256 (lengthPrefixed domain ++ toBeBytes 4 block ++ data)).bytes := by
  have width (k : ℕ) : (sha256 (lengthPrefixed domain ++ toBeBytes 4 k ++ data)).bytes.length = 32 :=
    (sha256 (lengthPrefixed domain ++ toBeBytes 4 k ++ data)).size
  have blocks : (sha256Backend sha256).expand domain data 64 =
      (sha256 (lengthPrefixed domain ++ toBeBytes 4 0 ++ data)).bytes ++
        (sha256 (lengthPrefixed domain ++ toBeBytes 4 1 ++ data)).bytes := by
    have two : List.range 2 = [0, 1] := rfl
    simp only [sha256Backend, Nat.reduceAdd, Nat.reduceDiv, two, List.flatMap_cons, List.flatMap_nil, List.append_nil]
    apply List.take_of_length_le
    rw [List.length_append, width, width]
  rw [blocks]
  have position : block = 0 ∨ block = 1 := by omega
  rcases position with rfl | rfl
  · exact List.take_left' (width 0)
  · rw [Fin.val_one, List.drop_left' (width 0)]
    exact List.take_of_length_le (width 1).le

/-- The message of a derivation is the input of every selector with its id. -/
private theorem fsInput_eq {derivation : Derivation} {selector : ℕ}
    (selects : derivation.sessions[selector]?.map FsSession.repetitionId = some derivation.selected) :
    fsInput (sha256Backend sha256) derivation.statement derivation.sessions selector = .ok derivation.message := by
  obtain ⟨session, found, same⟩ := Option.map_eq_some_iff.mp selects
  rw [fsInput, found, Outcome.okOr_some, Outcome.ok_bind, same]
  rfl

/-- Every digest is the hash of its object's message. -/
theorem Computes.eq_hash (computed : hashed.Computes sha256 digest) : digest = sha256 hashed.message := by
  cases hashed with
  | circuit compiled => exact (Circuit.computeId_ok_iff.mp computed).2.2.symm
  | payment paid => exact computed.symm
  | policy normal =>
    obtain ⟨policy, rfl, computed⟩ := computed
    obtain ⟨-, rfl⟩ := policyId_ok_iff.mp computed
    exact congrArg sha256 (List.append_assoc _ _ _)
  | credential secret =>
    cases computed
    exact congrArg sha256 (List.append_assoc _ _ _)
  | view opened randomness => exact (commitView_ok_iff.mp computed).2.2.symm
  | transcript derivation =>
    obtain ⟨selector, selects, computed⟩ := computed
    rw [Proof.fsDigest, fsInput_eq selects] at computed
    cases computed
    exact congrArg sha256 (List.append_assoc _ _ _)
  | challenge derivation block =>
    obtain ⟨selector, selects, input, found, computed⟩ := computed
    rw [fsInput_eq selects] at found
    cases found
    rw [expand_two_blocks, ← Digest.ext_iff] at computed
    rw [← computed]
    exact congrArg sha256 (List.append_assoc _ _ _)
  | nonce paymentId policyId circuitId => exact computed.symm
  | proof shown =>
    cases computed
    rfl
  | authorization artifact =>
    obtain ⟨proofBytes, framed, hashes⟩ := Outcome.bind_ok_iff.mp computed
    obtain ⟨-, rfl⟩ := encodeLengthPrefixed_ok_iff.mp framed
    cases hashes
    rfl

theorem tag_of_domain {separator : Bytes} (found : hashed.purpose.domain = some separator) :
    hashed.tag = separator := by
  cases hashed with
  | view opened randomness => cases found
  | circuit | payment | policy | credential | transcript | challenge | nonce | proof | authorization =>
    exact congrArg (Option.getD · []) found

theorem tag_of_view (absent : hashed.purpose.domain = none) (encodable : hashed.Encodable) :
    hashed.tag.length = randomnessLen := by
  cases hashed with
  | view opened randomness => exact encodable.2
  | circuit | payment | policy | credential | transcript | challenge | nonce | proof | authorization => cases absent

theorem tag_short (encodable : hashed.Encodable) : hashed.tag.length < 2 ^ 32 := by
  cases found : hashed.purpose.domain with
  | some separator =>
    have separators : ∀ purpose : Purpose, (purpose.domain.getD []).length < 2 ^ 32 := by decide +kernel
    have short := separators hashed.purpose
    rwa [found, Option.getD_some, ← tag_of_domain found] at short
  | none =>
    rw [tag_of_view found encodable]
    decide

/-- Under one tag of 32 bytes, the message of a view is no proof: its domain stands where
the proof has the name of its backend. -/
private theorem view_body_ne_proof {opened : PartyView} {randomness : Bytes} {shown : NonInteractiveProof}
    (known : shown.backendId ∈ supportedBackendIds) :
    (view opened randomness).body ≠ (proof shown).body := by
  intro same
  have windows : ((view opened randomness).body.drop 4).take 4 = ((proof shown).body.drop 4).take 4 := by rw [same]
  have domain : ((view opened randomness).body.drop 4).take 4 = toBeBytes 4 35 := by
    have framed : (view opened randomness).body = toBeBytes 4 (commitmentMessage opened).length ++
        commitmentMessage opened := rfl
    rw [framed, List.drop_left' (toBeBytes_length 4 _), commitmentMessage, lengthPrefixed, List.append_assoc]
    exact List.take_left' (toBeBytes_length 4 _)
  have name : ((proof shown).body.drop 4).take 4 = (shown.backendId.bytes.drop 2).take 4 := by
    have size := shown.backendId.size
    have split : (proof shown).body = [shown.version, shown.protocolId] ++ (shown.backendId.bytes ++
        (shown.statement.encode ++ Reader.encodeList ProofRepetition.encode shown.repetitions)) := by
      simp only [body, Proof.serializeProof, List.append_assoc]
    rw [split, List.drop_append, List.drop_eq_nil_of_le (by simp), List.nil_append, List.length_cons, List.length_cons,
      List.length_nil, List.drop_append_of_le_length (by rw [size]; decide),
      List.take_append_of_le_length (by rw [List.length_drop, size]; decide)]
  rw [domain, name] at windows
  have others : ∀ id ∈ supportedBackendIds, toBeBytes 4 35 ≠ (id.bytes.drop 2).take 4 := by decide +kernel
  exact others _ known windows

theorem purpose_eq (encodable : left.Encodable) (encodable' : right.Encodable) (tags : left.tag = right.tag)
    (bodies : left.body = right.body) : left.purpose = right.purpose := by
  have clash {hashed other : Hashed} (absent : hashed.purpose.domain = none) {separator : Bytes}
      (found : other.purpose.domain = some separator) (encodable : hashed.Encodable) (encodable' : other.Encodable)
      (tags : hashed.tag = other.tag) : hashed.body ≠ other.body := by
    have long := tag_of_view absent encodable
    rw [tags, tag_of_domain found] at long
    have only := Purpose.eq_proof_of_length found long
    cases hashed with
    | view opened randomness =>
      cases other with
      | proof shown => exact view_body_ne_proof encodable'.backendId
      | circuit | payment | policy | credential | view | transcript | challenge | nonce | authorization => cases only
    | circuit | payment | policy | credential | transcript | challenge | nonce | proof | authorization => cases absent
  apply Purpose.domain_injective
  cases found : left.purpose.domain with
  | some separator =>
    cases found' : right.purpose.domain with
    | some separator' => rw [← tag_of_domain found, ← tag_of_domain found', tags]
    | none => exact absurd bodies.symm (clash found' found encodable' encodable tags.symm)
  | none =>
    cases found' : right.purpose.domain with
    | some separator' => exact absurd bodies (clash found found' encodable encodable' tags)
    | none => rfl

private theorem derivation_eq {left right : Derivation} (encodable : left.Encodable) (encodable' : right.Encodable)
    (same : left.message = right.message) : left = right := by
  obtain ⟨statements, sessions, selected⟩ := Proof.message_injective _ encodable.statement encodable'.statement
    encodable.sessions encodable'.sessions encodable.short encodable'.short same
  cases left
  cases right
  cases statements
  cases sessions
  cases selected
  rfl

/-- A transcript that is hashed whole is longer than the number of a block. -/
private theorem transcript_ne_challenge {derivation other : Derivation} {block : Fin 2}
    (short : derivation.message.length < 2 ^ 32) : (transcript derivation).body ≠ (challenge other block).body := by
  intro same
  obtain ⟨counts, -⟩ := List.append_inj same (by simp)
  have equal := toBeBytes_injective short (block.isLt.trans (by decide)) counts
  have long : domainFs.length ≤ derivation.message.length := by
    simp only [Derivation.message, List.append_assoc, List.length_append]
    exact Nat.le_add_right _ _
  have domain : domainFs.length = 26 := by decide
  have blocks := block.isLt
  omega

private theorem serializeProof_inj {shown shown' : NonInteractiveProof} (encodable : shown.Encodable)
    (encodable' : shown'.Encodable) (same : Proof.serializeProof shown = Proof.serializeProof shown') :
    shown = shown' := by
  have read := Proof.deserializeProof_ok_iff.mpr ⟨encodable, rfl⟩
  have read' := Proof.deserializeProof_ok_iff.mpr ⟨encodable', same⟩
  exact Outcome.ok.inj (read.symm.trans read')

private theorem authorization_eq {artifact artifact' : Authorization} (encodable : artifact.proof.Encodable)
    (encodable' : artifact'.proof.Encodable) (same : (authorization artifact).body = (authorization artifact').body) :
    artifact = artifact' := by
  simp only [body, List.append_assoc] at same
  obtain ⟨versions, same⟩ := List.append_inj same rfl
  obtain ⟨backends, same⟩ := List.append_inj same (artifact.backendId.size.trans artifact'.backendId.size.symm)
  obtain ⟨payments, same⟩ := List.append_inj same (artifact.paymentId.size.trans artifact'.paymentId.size.symm)
  obtain ⟨policies, same⟩ := List.append_inj same (artifact.policyId.size.trans artifact'.policyId.size.symm)
  obtain ⟨circuits, same⟩ := List.append_inj same (artifact.circuitId.size.trans artifact'.circuitId.size.symm)
  obtain ⟨-, proofs⟩ := List.append_inj same (by simp)
  have shown := serializeProof_inj encodable encodable' proofs
  obtain ⟨version, protocolVersion, ⟨backend, _⟩, ⟨payment, _⟩, ⟨policy, _⟩, ⟨circuit, _⟩, proof⟩ := artifact
  obtain ⟨version', protocolVersion', ⟨backend', _⟩, ⟨payment', _⟩, ⟨policy', _⟩, ⟨circuit', _⟩, proof'⟩ := artifact'
  cases versions
  cases backends
  cases payments
  cases policies
  cases circuits
  cases shown
  rfl

/-- The bytes that are hashed determine what is hashed and what for. -/
theorem message_determines (encodable : left.Encodable) (encodable' : right.Encodable)
    (same : left.message = right.message) : left = right := by
  obtain ⟨tags, bodies⟩ := lengthPrefixed_append_inj (tag_short encodable) (tag_short encodable') same
  have purposes := purpose_eq encodable encodable' tags bodies
  cases left with
  | circuit compiled =>
    cases right with
    | circuit compiled' =>
      rw [encodable.1.eq_of_encode_eq encodable'.1 encodable.2.1 encodable'.2.1 encodable.2.2 encodable'.2.2 bodies]
    | payment | policy | credential | view | transcript | challenge | nonce | proof | authorization => cases purposes
  | payment paid =>
    cases right with
    | payment paid' => rw [Payment.encode_injective bodies]
    | circuit | policy | credential | view | transcript | challenge | nonce | proof | authorization => cases purposes
  | policy normal =>
    cases right with
    | policy normal' =>
      obtain ⟨-, encodings⟩ := List.append_inj bodies (by simp)
      rw [Policy.encode_injective encodable encodings]
    | circuit | payment | credential | view | transcript | challenge | nonce | proof | authorization => cases purposes
  | credential secret =>
    cases right with
    | credential secret' =>
      obtain ⟨-, secrets⟩ := List.append_inj bodies (by simp)
      rw [secrets]
    | circuit | payment | policy | view | transcript | challenge | nonce | proof | authorization => cases purposes
  | view opened randomness =>
    cases right with
    | view opened' randomness' =>
      obtain ⟨views, draws⟩ := commitmentInput_injective encodable.1 encodable'.1
        (encodable.2.trans encodable'.2.symm) same
      rw [views, draws]
    | circuit | payment | policy | credential | transcript | challenge | nonce | proof | authorization => cases purposes
  | transcript derivation =>
    cases right with
    | transcript derivation' =>
      obtain ⟨-, messages⟩ := List.append_inj bodies (by simp)
      rw [derivation_eq encodable.1 encodable'.1 messages]
    | challenge derivation' block' => exact absurd bodies (transcript_ne_challenge encodable.2)
    | circuit | payment | policy | credential | view | nonce | proof | authorization => cases purposes
  | challenge derivation block =>
    cases right with
    | challenge derivation' block' =>
      obtain ⟨counters, messages⟩ := List.append_inj bodies (by simp)
      have small (block : Fin 2) : (block : ℕ) < 256 ^ 4 := block.isLt.trans (by decide)
      have blocks := Fin.ext (toBeBytes_injective (small block) (small block') counters)
      rw [blocks, derivation_eq encodable encodable' messages]
    | transcript derivation' => exact absurd bodies.symm (transcript_ne_challenge encodable'.2)
    | circuit | payment | policy | credential | view | nonce | proof | authorization => cases purposes
  | nonce paymentId policyId circuitId =>
    cases right with
    | nonce paymentId' policyId' circuitId' =>
      obtain ⟨front, circuits⟩ := List.append_inj' bodies (circuitId.size.trans circuitId'.size.symm)
      obtain ⟨payments, policies⟩ := List.append_inj front (paymentId.size.trans paymentId'.size.symm)
      rw [Digest.ext_iff.mpr payments, Digest.ext_iff.mpr policies, Digest.ext_iff.mpr circuits]
    | circuit | payment | policy | credential | view | transcript | challenge | proof | authorization => cases purposes
  | proof shown =>
    cases right with
    | proof shown' => rw [serializeProof_inj encodable encodable' bodies]
    | circuit | payment | policy | credential | view | transcript | challenge | nonce | authorization => cases purposes
  | authorization artifact =>
    cases right with
    | authorization artifact' => rw [authorization_eq encodable encodable' bodies]
    | circuit | payment | policy | credential | view | transcript | challenge | nonce | proof => cases purposes

/-- Two digests are hashes of messages that coincide only for one object and one
purpose, so equal digests name the same object or exhibit a collision of SHA-256. -/
theorem computes_separated {digest' : Digest} (encodable : left.Encodable) (encodable' : right.Encodable)
    (computed : left.Computes sha256 digest) (computed' : right.Computes sha256 digest') :
    digest = sha256 left.message ∧ digest' = sha256 right.message ∧ (left.message = right.message ↔ left = right) := by
  refine ⟨computed.eq_hash, computed'.eq_hash, message_determines encodable encodable', ?_⟩
  intro same
  rw [same]

/-- The randomness of a view commitment may spell the domain of proof ids. -/
theorem computes_separated_spelled : ∃ digest digest',
    (view sampleView proofIdDomain).Computes PaymentAuth.sha256 digest ∧
      (proof sampleAuthorization.proof).Computes PaymentAuth.sha256 digest' ∧
      digest = PaymentAuth.sha256 (view sampleView proofIdDomain).message ∧
      digest' = PaymentAuth.sha256 (proof sampleAuthorization.proof).message ∧
      (view sampleView proofIdDomain).message ≠ (proof sampleAuthorization.proof).message := by
  have computed := commitView_ok_iff.mpr ⟨show proofIdDomain.length = randomnessLen by decide,
    show (commitmentMessage sampleView).length < 2 ^ 32 by decide +kernel,
    (rfl : (sha256Backend PaymentAuth.sha256).hash _ = _)⟩
  obtain ⟨hashed, hashed', separated⟩ := @computes_separated PaymentAuth.sha256 (view sampleView proofIdDomain)
    (proof sampleAuthorization.proof) _ _ ⟨sampleOpening_encodable.view, by decide⟩ sampleAuthorization_encodable.proof
    computed rfl
  refine ⟨_, _, computed, rfl, hashed, hashed', fun same => ?_⟩
  cases separated.mp same

end Messages

end Hashed

end PaymentAuth.Sdk
