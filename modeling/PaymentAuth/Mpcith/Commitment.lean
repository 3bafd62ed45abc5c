import PaymentAuth.Mpcith.Types

namespace PaymentAuth.Mpcith

open Library

def RepetitionId.encode (id : RepetitionId) : Bytes := toBeBytes 4 id.get.toNat

/-- An operation as a one-byte tag followed by its fields. -/
def LocalOperation.encode : LocalOperation → Bytes
  | .add output share => 0 :: (output.encode ++ elementToBeBytes share)
  | .mulPublic output scalar share =>
    1 :: (output.encode ++ elementToBeBytes scalar ++ elementToBeBytes share)
  | .beaverMul output tripleIndex d e share =>
    2 :: (output.encode ++ toBeBytes 4 tripleIndex ++ elementToBeBytes d ++ elementToBeBytes e ++
      elementToBeBytes share)

def TripleShare.encode (triple : TripleShare) : Bytes :=
  elementToBeBytes triple.a ++ elementToBeBytes triple.b ++ elementToBeBytes triple.c

/-- The canonical encoding of a view; its counts keep their low 32 bits. -/
def encodeView (view : PartyView) : Bytes :=
  view.repetitionId.encode ++ [PartyId.get view.partyId] ++
    toBeBytes 4 view.inputShares.length ++ view.inputShares.flatMap elementToBeBytes ++
    toBeBytes 4 view.localOperations.length ++ view.localOperations.flatMap LocalOperation.encode ++
    toBeBytes 4 view.tripleShares.length ++ view.tripleShares.flatMap TripleShare.encode ++
    toBeBytes 4 view.openedValues.length ++ view.openedValues.flatMap elementToBeBytes

/-- Domain separator binding view commitments to this protocol and encoding version. -/
def viewCommitmentDomain : Bytes := ascii "private-payment-auth/mpcith/view/v2"

/-- The domain-framed canonical message committed for a view. -/
def commitmentMessage (view : PartyView) : Bytes := lengthPrefixed viewCommitmentDomain ++ encodeView view

/-- A binding commitment to one party's view. -/
abbrev ViewCommitment := Digest

/-- Commits to a view under randomness. -/
def commitView (backend : CryptoBackend) (view : PartyView) (randomness : Bytes) :
    Outcome MpcithError ViewCommitment := do
  let r ← CommitmentRandomness.new .malformedCommitment randomness
  backend.commit (commitmentMessage view) r

/-- Checks that a view and randomness open a commitment. -/
def verifyCommitment (backend : CryptoBackend) (commitment : ViewCommitment) (view : PartyView)
    (randomness : Bytes) : Outcome MpcithError Bool := do
  let r ← CommitmentRandomness.new .malformedCommitment randomness
  let digest ← backend.commit (commitmentMessage view) r
  .ok (digest = commitment)

def LocalOperation.size : LocalOperation → ℕ
  | .add _ _ => 37
  | .mulPublic _ _ _ => 69
  | .beaverMul _ _ _ _ _ => 105

@[simp] theorem LocalOperation.encode_length (operation : LocalOperation) :
    operation.encode.length = operation.size := by
  cases operation <;> simp [encode, size, NodeId.encode]

@[simp] theorem TripleShare.encode_length (triple : TripleShare) : triple.encode.length = 96 := by
  simp [encode]

theorem flatMap_length_of_const {α : Type} {f : α → Bytes} {width : ℕ}
    (each : ∀ item, (f item).length = width) (items : List α) :
    (items.flatMap f).length = width * items.length := by
  induction items with
  | nil => rfl
  | cons item rest ih => rw [List.flatMap_cons, List.length_append, each, ih, List.length_cons]; ring

/-- The message a view commitment hashes: 39 bytes of domain, 21 of ids and
counts, then the lists of the view. -/
theorem commitmentMessage_length (view : PartyView) :
    (commitmentMessage view).length =
      60 + 32 * view.inputShares.length + (view.localOperations.map LocalOperation.size).sum +
        96 * view.tripleShares.length + 32 * view.openedValues.length := by
  have domain : viewCommitmentDomain.length = 35 := by decide
  have elements := flatMap_length_of_const elementToBeBytes_length
  have triples := flatMap_length_of_const TripleShare.encode_length view.tripleShares
  have operations :
      (view.localOperations.flatMap LocalOperation.encode).length =
        (view.localOperations.map LocalOperation.size).sum := by
    simp [List.length_flatMap]
  simp only [commitmentMessage, encodeView, RepetitionId.encode, List.length_append,
    lengthPrefixed_length, toBeBytes_length, List.length_singleton, domain, elements, triples, operations]
  omega

/-- Commitments need 32 bytes of randomness and a message whose length fits `u32`. -/
theorem commitView_ok_iff {backend : CryptoBackend} {view : PartyView} {randomness : Bytes}
    {commitment : ViewCommitment} :
    commitView backend view randomness = .ok commitment ↔
      randomness.length = randomnessLen ∧ (commitmentMessage view).length < 2 ^ 32 ∧
        backend.hash (lengthPrefixed randomness ++ lengthPrefixed (commitmentMessage view)) =
          commitment := by
  simp only [commitView, CommitmentRandomness.new, Outcome.bind_ok_iff, Outcome.reject_ok_iff,
    exists_const, not_not, Outcome.ok.injEq, CryptoBackend.commit_ok_iff]
  constructor
  · rintro ⟨_, ⟨size, rfl⟩, _, small, hashed⟩
    exact ⟨size, small, hashed⟩
  · rintro ⟨size, small, hashed⟩
    exact ⟨_, ⟨size, rfl⟩, by rw [size]; decide, small, hashed⟩

/-- Under 32 bytes of randomness only the length of the message decides whether it is committed. -/
theorem commitView_eq (backend : CryptoBackend) (view : PartyView) {randomness : Bytes}
    (size : randomness.length = randomnessLen) :
    commitView backend view randomness =
      if (commitmentMessage view).length < 2 ^ 32 then
        .ok (backend.hash (lengthPrefixed randomness ++ lengthPrefixed (commitmentMessage view)))
      else .aborted := by
  have small : randomness.length < 2 ^ 32 := by
    rw [size]
    decide
  simp only [commitView, CommitmentRandomness.new, CryptoBackend.commit, encodeLengthPrefixed,
    Outcome.reject_of_not (not_not.mpr size), Outcome.assert, if_pos small, Outcome.ok_bind]
  split <;> rfl

theorem verifyCommitment_true_iff {backend : CryptoBackend} {commitment : ViewCommitment}
    {view : PartyView} {randomness : Bytes} :
    verifyCommitment backend commitment view randomness = .ok true ↔
      commitView backend view randomness = .ok commitment := by
  simp only [verifyCommitment, commitView, Outcome.bind_ok_iff, Outcome.ok.injEq, decide_eq_true_eq]
  constructor
  · rintro ⟨r, checked, digest, committed, rfl⟩
    exact ⟨r, checked, committed⟩
  · rintro ⟨r, checked, committed⟩
    exact ⟨r, checked, _, committed, rfl⟩

end PaymentAuth.Mpcith
