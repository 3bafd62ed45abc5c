import PaymentAuth.Crypto.Sha256
import PaymentAuth.Proof.Statement

namespace PaymentAuth.Proof

open Library Mpcith

/-- Protocol version stamped into every proof and every challenge derivation. -/
def protocolVersion : UInt8 := 2

/-- Domain separator for challenge derivation. -/
def domainFs : Bytes := ascii "private-payment-auth/fs/v2"

/-- One repetition's pre-challenge material inside a joint derivation. -/
structure FsSession where
  repetitionId : RepetitionId
  commitments : List ViewCommitment
deriving DecidableEq

def FsSession.encode (session : FsSession) : Bytes :=
  session.repetitionId.encode ++ session.commitments.flatMap Digest.bytes

/-- The message a repetition's challenge is derived from: the statement and the
joint transcript, then the selected repetition's id. -/
def fsInput (backend : CryptoBackend) (statement : Statement) (sessions : List FsSession) (selector : ℕ) :
    Outcome ProofError Bytes := do
  let selected ← Outcome.okOr .malformedEncoding sessions[selector]?
  .ok (domainFs ++ backend.id.bytes ++ [protocolVersion] ++ statement.encode ++
    Reader.encodeList FsSession.encode sessions ++ selected.repetitionId.encode)

/-- The challenge of one repetition: eight expanded bytes modulo three. -/
def deriveChallenge (backend : CryptoBackend) (statement : Statement) (sessions : List FsSession)
    (selector : ℕ) : Outcome ProofError Challenge := do
  let input ← fsInput backend statement sessions selector
  let expanded := backend.expand domainFs input 64
  Outcome.assert (8 ≤ expanded.length)
  let value := fromBeBytes (expanded.take 8) % 3
  let hiddenParty ← (PartyId.new (UInt8.ofNat value)).mapError fun _ => .malformedEncoding
  .ok ⟨hiddenParty⟩

/-- Derives one challenge per session, each from all sessions' commitments. -/
def deriveAll (backend : CryptoBackend) (statement : Statement) (sessions : List FsSession) :
    Outcome ProofError (List Challenge) := do
  Outcome.reject (sessions.isEmpty = true ∨ ∃ session ∈ sessions, session.commitments.length ≠ 3) .invalidStatement
  (List.range sessions.length).mapM (deriveChallenge backend statement sessions)

/-- Session lists that challenges are derived for. -/
structure Admitted (sessions : List FsSession) : Prop where
  nonempty : sessions ≠ []
  commitments : ∀ session ∈ sessions, session.commitments.length = 3

theorem deriveAll_ok_iff {backend : CryptoBackend} {statement : Statement} {sessions : List FsSession}
    {challenges : List Challenge} :
    deriveAll backend statement sessions = .ok challenges ↔
      Admitted sessions ∧
        (List.range sessions.length).mapM (deriveChallenge backend statement sessions) = .ok challenges := by
  simp only [deriveAll, Outcome.bind_ok_iff, Outcome.reject_ok_iff, exists_const, not_or, List.isEmpty_iff]
  refine and_congr_left fun _ => ?_
  constructor
  · rintro ⟨nonempty, complete⟩
    exact ⟨nonempty, fun session member => by_contra fun wrong => complete ⟨session, member, wrong⟩⟩
  · intro admitted
    exact ⟨admitted.nonempty, fun ⟨session, member, wrong⟩ => wrong (admitted.commitments session member)⟩

/-- Reads a session with its three commitments. -/
def FsSession.read : Reader ProofError FsSession := do
  let repetitionId ← Reader.readU32 .malformedEncoding
  let commitments ← Reader.readMany (readDigest .malformedEncoding) 3
  return ⟨⟨repetitionId⟩, commitments⟩

theorem FsSession.read_canonical :
    FsSession.read.Canonical FsSession.encode fun session => session.commitments.length = 3 := by
  have readDigests := Reader.readMany_canonical (readDigest_canonical ProofError.malformedEncoding) 3
  intro bytes session rest
  simp only [FsSession.read, Emission.bind_ok_iff, (Reader.readU32_canonical ProofError.malformedEncoding) _ _ _,
    readDigests _ _ _, Emission.pure_ok_iff, true_and]
  constructor
  · rintro ⟨id, _, rfl, commitments, _, ⟨⟨three, _⟩, rfl⟩, rfl, rfl⟩
    exact ⟨three, by simp [FsSession.encode, RepetitionId.encode]⟩
  · rintro ⟨three, rfl⟩
    exact ⟨session.repetitionId.get, _, by rw [FsSession.encode, RepetitionId.encode, List.append_assoc],
      session.commitments, rest, ⟨⟨three, fun _ _ => trivial⟩, rfl⟩, rfl, rfl⟩

theorem message_injective {statement statement' : Statement} {sessions sessions' : List FsSession}
    {selected selected' : RepetitionId} (header : Bytes) (encodable : statement.Encodable)
    (encodable' : statement'.Encodable) (admitted : Admitted sessions) (admitted' : Admitted sessions')
    (short : sessions.length < 2 ^ 32) (short' : sessions'.length < 2 ^ 32)
    (same : header ++ statement.encode ++ Reader.encodeList FsSession.encode sessions ++ selected.encode =
      header ++ statement'.encode ++ Reader.encodeList FsSession.encode sessions' ++ selected'.encode) :
    statement = statement' ∧ sessions = sessions' ∧ selected = selected' := by
  simp only [List.append_assoc, List.append_cancel_left_eq] at same
  obtain ⟨statements, afterStatement⟩ :=
    Statement.decodePrefix_canonical.append_inj encodable encodable' same
  have readSessions := Reader.readList_canonical ProofError.malformedEncoding FsSession.read_canonical
  obtain ⟨transcripts, afterSessions⟩ :=
    readSessions.append_inj ⟨short, admitted.commitments⟩ ⟨short', admitted'.commitments⟩ afterStatement
  have ended : selected.encode ++ [] = selected'.encode ++ [] := by
    rw [List.append_nil, List.append_nil]
    exact afterSessions
  exact ⟨statements, transcripts, (readRepetitionId_canonical.append_inj trivial trivial ended).1⟩

/-- The derivation message determines the statement, the whole transcript and the
selected repetition. -/
theorem fsInput_injective (backend : CryptoBackend) {statement statement' : Statement}
    {sessions sessions' : List FsSession} {selector selector' : ℕ} (encodable : statement.Encodable)
    (encodable' : statement'.Encodable) (admitted : Admitted sessions) (admitted' : Admitted sessions')
    (short : sessions.length < 2 ^ 32) (short' : sessions'.length < 2 ^ 32)
    (inRange : selector < sessions.length) (inRange' : selector' < sessions'.length)
    (same : fsInput backend statement sessions selector = fsInput backend statement' sessions' selector') :
    statement = statement' ∧ sessions = sessions' ∧
      sessions[selector].repetitionId = sessions'[selector'].repetitionId := by
  simp only [fsInput, List.getElem?_eq_getElem inRange, List.getElem?_eq_getElem inRange', Outcome.okOr_some,
    Outcome.ok_bind, Outcome.ok.injEq] at same
  exact message_injective _ encodable encodable' admitted admitted' short short' same

def zeroDigest : Digest := ⟨List.replicate digestLen 0, rfl⟩

/-- Two sessions that share an id still have one reading. -/
theorem fsInput_injective_repeated :
    (⟨zeroDigest, [1], []⟩ : Statement) = ⟨zeroDigest, [1], []⟩ ∧
      [(⟨⟨7⟩, List.replicate 3 zeroDigest⟩ : FsSession), ⟨⟨7⟩, List.replicate 3 zeroDigest⟩] =
          [⟨⟨7⟩, List.replicate 3 zeroDigest⟩, ⟨⟨7⟩, List.replicate 3 zeroDigest⟩] ∧
      (⟨7⟩ : RepetitionId) = ⟨7⟩ :=
  @fsInput_injective (sha256Backend sha256) ⟨zeroDigest, [1], []⟩ ⟨zeroDigest, [1], []⟩
    [⟨⟨7⟩, List.replicate 3 zeroDigest⟩, ⟨⟨7⟩, List.replicate 3 zeroDigest⟩]
    [⟨⟨7⟩, List.replicate 3 zeroDigest⟩, ⟨⟨7⟩, List.replicate 3 zeroDigest⟩] 0 1
    ⟨by decide, by decide⟩ ⟨by decide, by decide⟩ ⟨by simp, by simp⟩ ⟨by simp, by simp⟩
    (by decide) (by decide) (by decide) (by decide) rfl

end PaymentAuth.Proof
