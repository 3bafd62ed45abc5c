import PaymentAuth.Circuit.Decoding
import PaymentAuth.Mpcith.Commitment

/-! Reading field elements, digests and party views back from their encodings. -/

namespace PaymentAuth

open Library

/-- The element with the given big-endian bytes, unless they reach the field order. -/
def elementFromBeBytes (bytes : Bytes) : Option FieldElement :=
  if fromBeBytes bytes < fieldOrder then some (fromBeBytes bytes : FieldElement) else none

section Readers

variable {ε : Type} (malformed : ε)

def readElement : Reader ε FieldElement := do
  let raw ← Reader.readBytes malformed 32
  liftM (Outcome.okOr malformed (elementFromBeBytes raw))

def readDigest : Reader ε Digest := do
  let raw ← Reader.readBytes malformed digestLen
  if size : raw.length = digestLen then return ⟨raw, size⟩
  else liftM (.error malformed : Outcome ε Digest)

theorem readElement_canonical : (readElement malformed).Canonical elementToBeBytes fun _ => True := by
  intro bytes value rest
  simp only [readElement, Emission.bind_ok_iff, (Reader.readBytes_canonical malformed 32) _ _ _,
    Emission.liftM_ok_iff, Outcome.okOr_ok_iff, id, true_and]
  constructor
  · rintro ⟨raw, _, ⟨size, rfl⟩, found, rfl⟩
    rw [(Circuit.elementFromBeBytes_eq_some_iff (size.trans elementWidth_fieldOrder.symm)).mp found]
  · rintro rfl
    have size := elementToBeBytes_length value
    exact ⟨_, rest, ⟨size, rfl⟩,
      (Circuit.elementFromBeBytes_eq_some_iff (size.trans elementWidth_fieldOrder.symm)).mpr rfl, rfl⟩

theorem readDigest_canonical : (readDigest malformed).Canonical Digest.bytes fun _ => True :=
  Reader.readSized_canonical _ Digest.size (fun _ => rfl) fun _ _ => rfl

end Readers

namespace Mpcith

def readPartyId {ε : Type} (malformed : ε) : Reader ε PartyId := do
  let value ← Reader.readU8 malformed
  liftM ((PartyId.new value).mapError fun _ => malformed)

def readRepetitionId : Reader MpcithError RepetitionId := do
  let id ← Reader.readU32 .malformedEncoding
  return ⟨id⟩

def readOperation : Reader MpcithError LocalOperation := do
  let tag ← Reader.readU8 .malformedEncoding
  if tag = 0 then do
    let output ← readNodeId .malformedEncoding
    let share ← readElement .malformedEncoding
    return .add output share
  else if tag = 1 then do
    let output ← readNodeId .malformedEncoding
    let scalar ← readElement .malformedEncoding
    let share ← readElement .malformedEncoding
    return .mulPublic output scalar share
  else if tag = 2 then do
    let output ← readNodeId .malformedEncoding
    let tripleIndex ← Reader.readU32 .malformedEncoding
    let d ← readElement .malformedEncoding
    let e ← readElement .malformedEncoding
    let share ← readElement .malformedEncoding
    return .beaverMul output tripleIndex.toNat d e share
  else liftM (.error .malformedEncoding : Outcome MpcithError LocalOperation)

def readTriple : Reader MpcithError TripleShare := do
  let a ← readElement .malformedEncoding
  let b ← readElement .malformedEncoding
  let c ← readElement .malformedEncoding
  return ⟨a, b, c⟩

def readView : Reader MpcithError PartyView := do
  let repetitionId ← readRepetitionId
  let partyId ← readPartyId .malformedEncoding
  let inputShares ← Reader.readList .malformedEncoding (readElement .malformedEncoding)
  let localOperations ← Reader.readList .malformedEncoding readOperation
  let tripleShares ← Reader.readList .malformedEncoding readTriple
  let openedValues ← Reader.readList .malformedEncoding (readElement .malformedEncoding)
  return ⟨repetitionId, partyId, inputShares, localOperations, tripleShares, openedValues⟩

/-- Parses a view from the front of a byte string, with the number of bytes consumed. -/
def decodeView (bytes : Bytes) : Outcome MpcithError (PartyView × ℕ) := do
  let (view, rest) ← readView bytes
  .ok (view, bytes.length - rest.length)

/-- Triple indices that fit their four bytes. -/
def LocalOperation.Encodable : LocalOperation → Prop
  | .add _ _ | .mulPublic _ _ _ => True
  | .beaverMul _ tripleIndex _ _ _ => tripleIndex < 2 ^ 32

/-- A view whose counts and triple indices fit their fields. -/
structure PartyView.Encodable (view : PartyView) : Prop where
  inputShares : view.inputShares.length < 2 ^ 32
  localOperations : view.localOperations.length < 2 ^ 32
  operations : ∀ operation ∈ view.localOperations, operation.Encodable
  tripleShares : view.tripleShares.length < 2 ^ 32
  openedValues : view.openedValues.length < 2 ^ 32

theorem readPartyId_canonical {ε : Type} (malformed : ε) :
    (readPartyId malformed).Canonical (fun party => [PartyId.get party]) fun _ => True := by
  intro bytes party rest
  simp only [readPartyId, Emission.bind_ok_iff, (Reader.readU8_canonical malformed) _ _ _, Emission.liftM_ok_iff,
    Outcome.mapError_ok_iff, true_and]
  constructor
  · rintro ⟨value, _, rfl, made, rfl⟩
    have same : PartyId.get party = value := by
      unfold PartyId.new at made
      split at made
      · cases made
        exact UInt8.ofNat_toNat
      · cases made
    rw [same]
  · rintro rfl
    exact ⟨_, rest, rfl, PartyId.new_get party, rfl⟩

theorem readRepetitionId_canonical : readRepetitionId.Canonical RepetitionId.encode fun _ => True := by
  intro bytes id rest
  simp only [readRepetitionId, Emission.bind_ok_iff, (Reader.readU32_canonical MpcithError.malformedEncoding) _ _ _,
    Emission.pure_ok_iff, true_and]
  constructor
  · rintro ⟨_, _, rfl, rfl, rfl⟩
    rfl
  · rintro rfl
    exact ⟨id.get, rest, rfl, rfl, rfl⟩

theorem readTriple_canonical : readTriple.Canonical TripleShare.encode fun _ => True := by
  intro bytes triple rest
  simp only [readTriple, Emission.bind_ok_iff, (readElement_canonical MpcithError.malformedEncoding) _ _ _,
    Emission.pure_ok_iff, true_and]
  constructor
  · rintro ⟨a, _, rfl, b, _, rfl, c, _, rfl, rfl, rfl⟩
    simp [TripleShare.encode]
  · rintro rfl
    exact ⟨triple.a, _, by rw [TripleShare.encode, List.append_assoc, List.append_assoc], triple.b, _, rfl, triple.c,
      rest, rfl, rfl, rfl⟩

theorem readOperation_canonical : readOperation.Canonical LocalOperation.encode LocalOperation.Encodable := by
  intro bytes operation rest
  simp only [readOperation, Emission.bind_ok_iff, (Reader.readU8_canonical MpcithError.malformedEncoding) _ _ _, true_and]
  constructor
  · rintro ⟨tag, fields, rfl, reads⟩
    split at reads
    · subst tag
      simp only [Emission.bind_ok_iff, (readNodeId_canonical MpcithError.malformedEncoding) _ _ _,
        (readElement_canonical MpcithError.malformedEncoding) _ _ _, Emission.pure_ok_iff, true_and] at reads
      obtain ⟨output, _, rfl, share, _, rfl, rfl, rfl⟩ := reads
      exact ⟨trivial, by simp [LocalOperation.encode]⟩
    · split at reads
      · subst tag
        simp only [Emission.bind_ok_iff, (readNodeId_canonical MpcithError.malformedEncoding) _ _ _,
          (readElement_canonical MpcithError.malformedEncoding) _ _ _, Emission.pure_ok_iff, true_and] at reads
        obtain ⟨output, _, rfl, scalar, _, rfl, share, _, rfl, rfl, rfl⟩ := reads
        exact ⟨trivial, by simp [LocalOperation.encode]⟩
      · split at reads
        · subst tag
          simp only [Emission.bind_ok_iff, (readNodeId_canonical MpcithError.malformedEncoding) _ _ _,
            (Reader.readU32_canonical MpcithError.malformedEncoding) _ _ _,
            (readElement_canonical MpcithError.malformedEncoding) _ _ _, Emission.pure_ok_iff, true_and] at reads
          obtain ⟨output, _, rfl, tripleIndex, _, rfl, d, _, rfl, e, _, rfl, share, _, rfl, rfl, rfl⟩ := reads
          exact ⟨tripleIndex.toNat_lt, by simp [LocalOperation.encode]⟩
        · rw [Emission.liftM_ok_iff] at reads
          cases reads.1
  · rintro ⟨encodable, rfl⟩
    cases operation with
    | add output share =>
      refine ⟨0, output.encode ++ (elementToBeBytes share ++ rest), by simp [LocalOperation.encode], ?_⟩
      simp only [if_true, Emission.bind_ok_iff, (readNodeId_canonical MpcithError.malformedEncoding) _ _ _,
        (readElement_canonical MpcithError.malformedEncoding) _ _ _, Emission.pure_ok_iff, true_and]
      exact ⟨output, _, rfl, share, rest, rfl, rfl, rfl⟩
    | mulPublic output scalar share =>
      refine ⟨1, output.encode ++ (elementToBeBytes scalar ++ (elementToBeBytes share ++ rest)),
        by simp [LocalOperation.encode], ?_⟩
      rw [if_neg (by decide), if_pos rfl]
      simp only [Emission.bind_ok_iff, (readNodeId_canonical MpcithError.malformedEncoding) _ _ _,
        (readElement_canonical MpcithError.malformedEncoding) _ _ _, Emission.pure_ok_iff, true_and]
      exact ⟨output, _, rfl, scalar, _, rfl, share, rest, rfl, rfl, rfl⟩
    | beaverMul output tripleIndex d e share =>
      refine ⟨2, output.encode ++ (toBeBytes 4 tripleIndex ++ (elementToBeBytes d ++
        (elementToBeBytes e ++ (elementToBeBytes share ++ rest)))), by simp [LocalOperation.encode], ?_⟩
      have kept : (UInt32.ofNat tripleIndex).toNat = tripleIndex := UInt32.toNat_ofNat_of_lt' encodable
      rw [if_neg (by decide), if_neg (by decide), if_pos rfl]
      simp only [Emission.bind_ok_iff, (readNodeId_canonical MpcithError.malformedEncoding) _ _ _,
        (Reader.readU32_canonical MpcithError.malformedEncoding) _ _ _,
        (readElement_canonical MpcithError.malformedEncoding) _ _ _, Emission.pure_ok_iff, true_and]
      exact ⟨output, _, rfl, UInt32.ofNat tripleIndex, _, by rw [kept], d, _, rfl, e, _, rfl, share, rest, rfl,
        by rw [kept], rfl⟩

/-- The sections of a view in the order they are read. -/
theorem encodeView_append (view : PartyView) (rest : Bytes) :
    encodeView view ++ rest = view.repetitionId.encode ++ ([PartyId.get view.partyId] ++
      (Reader.encodeList elementToBeBytes view.inputShares ++
        (Reader.encodeList LocalOperation.encode view.localOperations ++
          (Reader.encodeList TripleShare.encode view.tripleShares ++
            (Reader.encodeList elementToBeBytes view.openedValues ++ rest))))) := by
  simp [encodeView, Reader.encodeList]

theorem readView_canonical : readView.Canonical encodeView PartyView.Encodable := by
  have readElements := Reader.readList_canonical MpcithError.malformedEncoding
    (readElement_canonical MpcithError.malformedEncoding)
  have readOperations := Reader.readList_canonical MpcithError.malformedEncoding readOperation_canonical
  have readTriples := Reader.readList_canonical MpcithError.malformedEncoding readTriple_canonical
  intro bytes view rest
  simp only [readView, Emission.bind_ok_iff, readRepetitionId_canonical _ _ _,
    (readPartyId_canonical MpcithError.malformedEncoding) _ _ _, readElements _ _ _, readOperations _ _ _,
    readTriples _ _ _, Emission.pure_ok_iff, true_and]
  constructor
  · rintro ⟨id, _, rfl, party, _, rfl, shares, _, ⟨⟨sharesLen, _⟩, rfl⟩, operations, _, ⟨⟨opsLen, each⟩, rfl⟩,
      triples, _, ⟨⟨triplesLen, _⟩, rfl⟩, opened, _, ⟨⟨openedLen, _⟩, rfl⟩, rfl, rfl⟩
    exact ⟨⟨sharesLen, opsLen, each, triplesLen, openedLen⟩, by rw [encodeView_append]⟩
  · rintro ⟨encodable, rfl⟩
    rw [encodeView_append]
    exact ⟨view.repetitionId, _, rfl, view.partyId, _, rfl,
      view.inputShares, _, ⟨⟨encodable.inputShares, fun _ _ => trivial⟩, rfl⟩,
      view.localOperations, _, ⟨⟨encodable.localOperations, encodable.operations⟩, rfl⟩,
      view.tripleShares, _, ⟨⟨encodable.tripleShares, fun _ _ => trivial⟩, rfl⟩,
      view.openedValues, rest, ⟨⟨encodable.openedValues, fun _ _ => trivial⟩, rfl⟩, rfl, rfl⟩

/-- A view is read from the front of a byte string exactly when the string continues its encoding. -/
theorem decodeView_prefix_iff {bytes : Bytes} {view : PartyView} {consumed : ℕ} :
    decodeView bytes = .ok (view, consumed) ↔
      view.Encodable ∧ consumed = (encodeView view).length ∧ ∃ rest, bytes = encodeView view ++ rest := by
  simp only [decodeView, Outcome.bind_ok_iff, Prod.exists, readView_canonical _ _ _, Outcome.ok.injEq, Prod.mk.injEq]
  constructor
  · rintro ⟨_, rest, ⟨encodable, rfl⟩, rfl, rfl⟩
    refine ⟨encodable, ?_, rest, rfl⟩
    rw [List.length_append, Nat.add_sub_cancel]
  · rintro ⟨encodable, rfl, rest, rfl⟩
    refine ⟨view, rest, ⟨encodable, rfl⟩, rfl, ?_⟩
    rw [List.length_append, Nat.add_sub_cancel]

/-- A byte string that holds one whole view is that view's encoding. -/
theorem decodeView_ok_iff {bytes : Bytes} {view : PartyView} :
    decodeView bytes = .ok (view, bytes.length) ↔ view.Encodable ∧ bytes = encodeView view := by
  rw [decodeView_prefix_iff]
  refine and_congr_right fun encodable => ⟨?_, ?_⟩
  · rintro ⟨consumed, rest, rfl⟩
    rw [List.length_append] at consumed
    obtain rfl : rest = [] := List.length_eq_zero_iff.mp (Nat.add_eq_left.mp consumed)
    exact List.append_nil _
  · rintro rfl
    exact ⟨rfl, [], (List.append_nil _).symm⟩

/-- The bytes that a commitment to a view under randomness hashes. -/
def commitmentInput (view : PartyView) (randomness : Bytes) : Bytes :=
  lengthPrefixed randomness ++ lengthPrefixed (commitmentMessage view)

/-- Under randomness of one length, the hashed bytes determine the view and the randomness. -/
theorem commitmentInput_injective {view view' : PartyView} {randomness randomness' : Bytes}
    (encodable : view.Encodable) (encodable' : view'.Encodable) (size : randomness.length = randomness'.length)
    (same : commitmentInput view randomness = commitmentInput view' randomness') :
    view = view' ∧ randomness = randomness' := by
  unfold commitmentInput lengthPrefixed at same
  obtain ⟨framedRandomness, framedMessage⟩ := List.append_inj same (by simp [size])
  have message : commitmentMessage view = commitmentMessage view' := (List.append_inj framedMessage (by simp)).2
  have encodings : encodeView view ++ [] = encodeView view' ++ [] := by
    rw [List.append_nil, List.append_nil]
    exact List.append_cancel_left message
  exact ⟨(readView_canonical.append_inj encodable encodable' encodings).1, (List.append_inj framedRandomness (by simp)).2⟩

/-- Views are read back from their encodings whatever follows, only encodings are
read, and the bytes a view commitment hashes determine the view and the randomness. -/
theorem encodeView_unique :
    (∀ (view : PartyView) (rest : Bytes), view.Encodable →
        decodeView (encodeView view ++ rest) = .ok (view, (encodeView view).length)) ∧
      (∀ (bytes : Bytes) (view : PartyView) (consumed : ℕ), decodeView bytes = .ok (view, consumed) →
        encodeView view = bytes.take consumed) ∧
      ∀ (backend : CryptoBackend) (view view' : PartyView) (randomness randomness' : Bytes)
        (commitment commitment' : ViewCommitment), view.Encodable → view'.Encodable →
        commitView backend view randomness = .ok commitment → commitView backend view' randomness' = .ok commitment' →
        commitment = backend.hash (commitmentInput view randomness) ∧
          commitment' = backend.hash (commitmentInput view' randomness') ∧
          (commitmentInput view randomness = commitmentInput view' randomness' →
            view = view' ∧ randomness = randomness') := by
  refine ⟨fun view rest encodable => decodeView_prefix_iff.mpr ⟨encodable, rfl, rest, rfl⟩,
    fun bytes view consumed read => ?_,
    fun backend view view' randomness randomness' commitment commitment' encodable encodable' committed committed' => ?_⟩
  · obtain ⟨-, rfl, rest, rfl⟩ := decodeView_prefix_iff.mp read
    exact List.take_left.symm
  · obtain ⟨size, -, hashed⟩ := commitView_ok_iff.mp committed
    obtain ⟨size', -, hashed'⟩ := commitView_ok_iff.mp committed'
    exact ⟨hashed.symm, hashed'.symm, commitmentInput_injective encodable encodable' (size.trans size'.symm)⟩

/-- The view of a party that holds one share and added two wires, with a byte after it. -/
theorem encodeView_unique_sum :
    decodeView (encodeView ⟨⟨0⟩, 2, [5], [.add ⟨1⟩ 7], [], []⟩ ++ [9]) =
      .ok (⟨⟨0⟩, 2, [5], [.add ⟨1⟩ 7], [], []⟩, 90) :=
  encodeView_unique.1 ⟨⟨0⟩, 2, [5], [.add ⟨1⟩ 7], [], []⟩ [9]
    ⟨by decide, by decide, by simp [LocalOperation.Encodable], by decide, by decide⟩

end Mpcith

end PaymentAuth
