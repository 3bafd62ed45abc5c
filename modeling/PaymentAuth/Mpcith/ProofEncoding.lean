import PaymentAuth.Mpcith.Encoding
import PaymentAuth.Mpcith.Prover

/-! The interactive proof encoding, and which byte strings it decodes besides its
own encodings. -/

namespace PaymentAuth.Mpcith

open Library

/-- Current canonical encoding version. -/
def encodingVersion : UInt8 := 1

/-- Maximum number of repetitions a proof decoder will accept. -/
def maxRepetitions : ℕ := 10000

/-- A view after its length, followed by its randomness. -/
def encodeOpenedView (opened : OpenedView) : Bytes := lengthPrefixed (encodeView opened.view) ++ opened.randomness

/-- Encodes a repetition; its counts and lengths keep their low 32 bits. -/
def encodeRepetition (repetition : Repetition) : Bytes :=
  repetition.id.encode ++ repetition.commitments.flatMap Digest.bytes ++
    [PartyId.get repetition.challenge.hiddenParty] ++
    Reader.encodeList elementToBeBytes repetition.hiddenOutputShares ++
    Reader.encodeList elementToBeBytes repetition.hiddenBroadcasts ++
    repetition.openedViews.flatMap encodeOpenedView

/-- Serializes a proof. -/
def serializeProof (proof : MpcithProof) : Bytes :=
  encodingVersion :: Reader.encodeList encodeRepetition proof.repetitions

/-- Reads an opened view; the number of bytes its view takes up is not looked at. -/
def decodeOpenedView : Reader MpcithError OpenedView := do
  let len ← Reader.readU32 .malformedEncoding
  let viewBytes ← Reader.readBytes .malformedEncoding len.toNat
  let (view, _) ← liftM (decodeView viewBytes)
  let randomness ← Reader.readBytes .malformedEncoding randomnessLen
  return ⟨view, randomness⟩

def decodeRepetition : Reader MpcithError Repetition := do
  let id ← readRepetitionId
  let commitments ← Reader.readMany (readDigest .malformedEncoding) partyCount
  let hiddenParty ← readPartyId .malformedEncoding
  let hiddenOutputShares ← Reader.readList .malformedEncoding (readElement .malformedEncoding)
  let hiddenBroadcasts ← Reader.readList .malformedEncoding (readElement .malformedEncoding)
  let openedViews ← Reader.readMany decodeOpenedView 2
  return ⟨id, commitments, ⟨hiddenParty⟩, openedViews, hiddenOutputShares, hiddenBroadcasts⟩

/-- Reads the version, the bounded count and that many items. -/
def readVersioned {α : Type} (read : Reader MpcithError α) : Reader MpcithError (List α) := do
  let version ← Reader.readU8 .malformedEncoding
  Emission.reject (version ≠ encodingVersion) .malformedEncoding
  let count ← Reader.readU32 .malformedEncoding
  Emission.reject (count.toNat > maxRepetitions) .malformedEncoding
  Reader.readMany read count.toNat

/-- Decodes a full proof, rejecting version mismatches and trailing bytes. -/
def decodeProof (bytes : Bytes) : Outcome MpcithError MpcithProof := do
  let repetitions ← Reader.readWhole .malformedEncoding (readVersioned decodeRepetition) bytes
  .ok ⟨repetitions⟩

/-- The bytes of one opened view: its length-prefixed section and its randomness. -/
structure ViewSection where
  view : Bytes
  randomness : Bytes
deriving DecidableEq

/-- A repetition whose opened views are still bytes. -/
structure RepetitionFrame where
  id : RepetitionId
  commitments : List ViewCommitment
  challenge : Challenge
  sections : List ViewSection
  hiddenOutputShares : List FieldElement
  hiddenBroadcasts : List FieldElement
deriving DecidableEq

def ViewSection.encode (part : ViewSection) : Bytes := lengthPrefixed part.view ++ part.randomness

def RepetitionFrame.encode (frame : RepetitionFrame) : Bytes :=
  frame.id.encode ++ frame.commitments.flatMap Digest.bytes ++ [PartyId.get frame.challenge.hiddenParty] ++
    Reader.encodeList elementToBeBytes frame.hiddenOutputShares ++
    Reader.encodeList elementToBeBytes frame.hiddenBroadcasts ++ frame.sections.flatMap ViewSection.encode

def readSection : Reader MpcithError ViewSection := do
  let len ← Reader.readU32 .malformedEncoding
  let view ← Reader.readBytes .malformedEncoding len.toNat
  let randomness ← Reader.readBytes .malformedEncoding randomnessLen
  return ⟨view, randomness⟩

def readFrame : Reader MpcithError RepetitionFrame := do
  let id ← readRepetitionId
  let commitments ← Reader.readMany (readDigest .malformedEncoding) partyCount
  let hiddenParty ← readPartyId .malformedEncoding
  let hiddenOutputShares ← Reader.readList .malformedEncoding (readElement .malformedEncoding)
  let hiddenBroadcasts ← Reader.readList .malformedEncoding (readElement .malformedEncoding)
  let sections ← Reader.readMany readSection 2
  return ⟨id, commitments, ⟨hiddenParty⟩, sections, hiddenOutputShares, hiddenBroadcasts⟩

/-- Splits a proof into its repetitions without reading the views. -/
def readFrames (bytes : Bytes) : Outcome MpcithError (List RepetitionFrame) :=
  Reader.readWhole .malformedEncoding (readVersioned readFrame) bytes

/-- No byte follows the view within its section. -/
def ViewSection.Filled (part : ViewSection) : Prop :=
  ∀ view consumed, decodeView part.view = .ok (view, consumed) → consumed = part.view.length

/-- Every view section of a proof is filled by its view. -/
def ViewsFilled (bytes : Bytes) : Prop :=
  ∀ frames, readFrames bytes = .ok frames → ∀ frame ∈ frames, ∀ part ∈ frame.sections, part.Filled

/-- The view and the randomness that a section opens to. -/
def ViewSection.Opens (part : ViewSection) (opened : OpenedView) : Prop :=
  part.randomness = opened.randomness ∧ ∃ consumed, decodeView part.view = .ok (opened.view, consumed)

/-- The repetition that a frame stands for. -/
structure RepetitionFrame.Opens (frame : RepetitionFrame) (repetition : Repetition) : Prop where
  id : frame.id = repetition.id
  commitments : frame.commitments = repetition.commitments
  challenge : frame.challenge = repetition.challenge
  hiddenOutputShares : frame.hiddenOutputShares = repetition.hiddenOutputShares
  hiddenBroadcasts : frame.hiddenBroadcasts = repetition.hiddenBroadcasts
  sections : List.Forall₂ ViewSection.Opens frame.sections repetition.openedViews

/-- Sections whose lengths fit their fields. -/
structure ViewSection.Encodable (part : ViewSection) : Prop where
  view : part.view.length < 2 ^ 32
  randomness : part.randomness.length = randomnessLen

/-- A frame in the shape the decoder accepts. -/
structure RepetitionFrame.Encodable (frame : RepetitionFrame) : Prop where
  commitments : frame.commitments.length = partyCount
  hiddenOutputShares : frame.hiddenOutputShares.length < 2 ^ 32
  hiddenBroadcasts : frame.hiddenBroadcasts.length < 2 ^ 32
  sections : frame.sections.length = 2
  each : ∀ part ∈ frame.sections, part.Encodable

theorem decodeOpenedView_interprets : decodeOpenedView.Interprets readSection ViewSection.Opens := by
  intro bytes opened rest
  simp only [decodeOpenedView, readSection, Emission.bind_ok_iff, Emission.liftM_ok_iff, Emission.pure_ok_iff, Prod.exists]
  constructor
  · rintro ⟨len, _, size, viewBytes, _, framed, view, consumed, _, ⟨decoded, rfl⟩, randomness, _, salted, rfl, rfl⟩
    exact ⟨⟨viewBytes, randomness⟩, ⟨len, _, size, viewBytes, _, framed, randomness, _, salted, rfl, rfl⟩, rfl, consumed,
      decoded⟩
  · rintro ⟨part, ⟨len, _, size, viewBytes, _, framed, randomness, _, salted, rfl, rfl⟩, same, consumed, decoded⟩
    exact ⟨len, _, size, viewBytes, _, framed, opened.view, consumed, _, ⟨decoded, rfl⟩, randomness, _, salted,
      congrArg (OpenedView.mk opened.view) same, rfl⟩

theorem decodeRepetition_interprets : decodeRepetition.Interprets readFrame RepetitionFrame.Opens := by
  intro bytes repetition rest
  simp only [decodeRepetition, readFrame, Emission.bind_ok_iff, Emission.pure_ok_iff,
    (decodeOpenedView_interprets.readMany 2) _ _ _]
  constructor
  · rintro ⟨id, _, named, commitments, _, committed, party, _, challenged, shares, _, shared, broadcasts, _, broadcast,
      openedViews, _, ⟨sections, framed, opens⟩, rfl, rfl⟩
    exact ⟨⟨id, commitments, ⟨party⟩, sections, shares, broadcasts⟩, ⟨id, _, named, commitments, _, committed, party, _,
      challenged, shares, _, shared, broadcasts, _, broadcast, sections, _, framed, rfl, rfl⟩, rfl, rfl, rfl, rfl, rfl,
      opens⟩
  · rintro ⟨frame, ⟨id, _, named, commitments, _, committed, party, _, challenged, shares, _, shared, broadcasts, _,
      broadcast, sections, _, framed, rfl, rfl⟩, opens⟩
    refine ⟨id, _, named, commitments, _, committed, party, _, challenged, shares, _, shared, broadcasts, _, broadcast,
      repetition.openedViews, _, ⟨sections, framed, opens.sections⟩, ?_, rfl⟩
    cases repetition
    obtain ⟨rfl, rfl, rfl, rfl, rfl, -⟩ := opens
    rfl

theorem Interprets.readVersioned {α β : Type} {read : Reader MpcithError α} {split : Reader MpcithError β}
    {Holds : β → α → Prop} (interprets : read.Interprets split Holds) :
    (readVersioned read).Interprets (readVersioned split) (List.Forall₂ Holds) := by
  intro bytes values rest
  simp only [Mpcith.readVersioned, Emission.bind_ok_iff, (interprets.readMany _) _ _ _]
  constructor
  · rintro ⟨version, _, first, _, _, known, count, _, counted, _, _, bounded, parts, split, holds⟩
    exact ⟨parts, ⟨version, _, first, _, _, known, count, _, counted, _, _, bounded, split⟩, holds⟩
  · rintro ⟨parts, ⟨version, _, first, _, _, known, count, _, counted, _, _, bounded, split⟩, holds⟩
    exact ⟨version, _, first, _, _, known, count, _, counted, _, _, bounded, parts, split, holds⟩

theorem readSection_canonical : readSection.Canonical ViewSection.encode ViewSection.Encodable := by
  intro bytes part rest
  simp only [readSection, Emission.bind_ok_iff, (Reader.readU32_canonical MpcithError.malformedEncoding) _ _ _,
    (Reader.readBytes_canonical MpcithError.malformedEncoding _) _ _ _, Emission.pure_ok_iff, true_and, id]
  constructor
  · rintro ⟨len, _, rfl, view, _, ⟨size, rfl⟩, randomness, _, ⟨full, rfl⟩, rfl, rfl⟩
    refine ⟨⟨size ▸ len.toNat_lt, full⟩, ?_⟩
    simp [ViewSection.encode, lengthPrefixed, size]
  · rintro ⟨encodable, rfl⟩
    have kept : (UInt32.ofNat part.view.length).toNat = part.view.length := UInt32.toNat_ofNat_of_lt' encodable.view
    refine ⟨UInt32.ofNat part.view.length, part.view ++ (part.randomness ++ rest), ?_, part.view, _, ⟨kept.symm, rfl⟩,
      part.randomness, rest, ⟨encodable.randomness, rfl⟩, rfl, rfl⟩
    rw [kept]
    simp only [ViewSection.encode, lengthPrefixed, List.append_assoc]

theorem readFrame_canonical : readFrame.Canonical RepetitionFrame.encode RepetitionFrame.Encodable := by
  have readDigests := Reader.readMany_canonical (readDigest_canonical MpcithError.malformedEncoding) partyCount
  have readElements := Reader.readList_canonical MpcithError.malformedEncoding
    (readElement_canonical MpcithError.malformedEncoding)
  intro bytes frame rest
  simp only [readFrame, Emission.bind_ok_iff, readRepetitionId_canonical _ _ _, readDigests _ _ _,
    (readPartyId_canonical MpcithError.malformedEncoding) _ _ _, readElements _ _ _,
    (Reader.readMany_canonical readSection_canonical 2) _ _ _, Emission.pure_ok_iff, true_and]
  constructor
  · rintro ⟨id, _, rfl, commitments, _, ⟨⟨three, _⟩, rfl⟩, party, _, rfl, shares, _, ⟨⟨sharesLen, _⟩, rfl⟩, broadcasts, _,
      ⟨⟨broadcastsLen, _⟩, rfl⟩, sections, _, ⟨⟨two, each⟩, rfl⟩, rfl, rfl⟩
    refine ⟨⟨three, sharesLen, broadcastsLen, two, each⟩, ?_⟩
    simp only [RepetitionFrame.encode, List.append_assoc]
  · rintro ⟨encodable, rfl⟩
    refine ⟨frame.id, _, ?_, frame.commitments, _, ⟨⟨encodable.commitments, fun _ _ => trivial⟩, rfl⟩,
      frame.challenge.hiddenParty, _, rfl,
      frame.hiddenOutputShares, _, ⟨⟨encodable.hiddenOutputShares, fun _ _ => trivial⟩, rfl⟩,
      frame.hiddenBroadcasts, _, ⟨⟨encodable.hiddenBroadcasts, fun _ _ => trivial⟩, rfl⟩,
      frame.sections, rest, ⟨⟨encodable.sections, encodable.each⟩, rfl⟩, rfl, rfl⟩
    simp only [RepetitionFrame.encode, List.append_assoc]

theorem readVersioned_canonical {α : Type} {read : Reader MpcithError α} {encode : α → Bytes} {Valid : α → Prop}
    (canonical : read.Canonical encode Valid) :
    (readVersioned read).Canonical (fun items => encodingVersion :: Reader.encodeList encode items)
      fun items => items.length ≤ maxRepetitions ∧ ∀ item ∈ items, Valid item := by
  intro bytes items rest
  simp only [readVersioned, Emission.bind_ok_iff, (Reader.readU8_canonical MpcithError.malformedEncoding) _ _ _,
    (Reader.readU32_canonical MpcithError.malformedEncoding) _ _ _, Emission.reject_ok_iff, not_not, not_lt,
    (Reader.readMany_canonical canonical _) _ _ _, true_and]
  constructor
  · rintro ⟨version, _, rfl, _, _, ⟨rfl, rfl⟩, count, _, rfl, _, _, ⟨bounded, rfl⟩, ⟨size, each⟩, rfl⟩
    exact ⟨⟨size ▸ bounded, each⟩, by simp [Reader.encodeList, size]⟩
  · rintro ⟨⟨bounded, each⟩, rfl⟩
    have kept : (UInt32.ofNat items.length).toNat = items.length :=
      UInt32.toNat_ofNat_of_lt' (bounded.trans_lt (by decide))
    refine ⟨encodingVersion, Reader.encodeList encode items ++ rest, rfl, (), _, ⟨rfl, rfl⟩, UInt32.ofNat items.length,
      _, ?_, (), _, ⟨kept.trans_le bounded, rfl⟩, ⟨kept.symm, each⟩, rfl⟩
    rw [kept]
    simp only [Reader.encodeList, List.append_assoc]

/-- The accepted byte strings are the frames whose sections open to the views of the proof. -/
theorem decodeProof_ok_iff {bytes : Bytes} {proof : MpcithProof} :
    decodeProof bytes = .ok proof ↔
      ∃ frames, readFrames bytes = .ok frames ∧ List.Forall₂ RepetitionFrame.Opens frames proof.repetitions := by
  simp only [decodeProof, readFrames, Reader.readWhole, Outcome.bind_ok_iff, Prod.exists, Outcome.reject_ok_iff,
    Outcome.ok.injEq, exists_const, (Interprets.readVersioned decodeRepetition_interprets) _ _ _]
  constructor
  · rintro ⟨_, ⟨repetitions, rest, ⟨frames, read, opens⟩, none, rfl⟩, rfl⟩
    exact ⟨frames, ⟨frames, rest, read, none, rfl⟩, opens⟩
  · rintro ⟨frames, ⟨_, rest, read, none, rfl⟩, opens⟩
    exact ⟨proof.repetitions, ⟨proof.repetitions, rest, ⟨_, read, opens⟩, none, rfl⟩, rfl⟩

theorem readFrames_ok_iff {bytes : Bytes} {frames : List RepetitionFrame} :
    readFrames bytes = .ok frames ↔ (frames.length ≤ maxRepetitions ∧ ∀ frame ∈ frames, frame.Encodable) ∧
      bytes = encodingVersion :: Reader.encodeList RepetitionFrame.encode frames :=
  (readVersioned_canonical readFrame_canonical).readWhole_ok_iff

/-- The section that the serializer writes for an opened view. -/
def OpenedView.toSection (opened : OpenedView) : ViewSection := ⟨encodeView opened.view, opened.randomness⟩

/-- The frame that the serializer writes for a repetition. -/
def Repetition.toFrame (repetition : Repetition) : RepetitionFrame where
  id := repetition.id
  commitments := repetition.commitments
  challenge := repetition.challenge
  sections := repetition.openedViews.map OpenedView.toSection
  hiddenOutputShares := repetition.hiddenOutputShares
  hiddenBroadcasts := repetition.hiddenBroadcasts

theorem serializeProof_eq (proof : MpcithProof) : serializeProof proof =
    encodingVersion :: Reader.encodeList RepetitionFrame.encode (proof.repetitions.map Repetition.toFrame) := by
  have each (repetition : Repetition) : encodeRepetition repetition = repetition.toFrame.encode := by
    rw [encodeRepetition, RepetitionFrame.encode, Repetition.toFrame, List.flatMap_map]
    rfl
  rw [serializeProof, Reader.encodeList, Reader.encodeList, List.length_map, List.flatMap_map, funext each]

private theorem forall_mem_iff_eq_map {α β : Type} {R : α → β → Prop} {P : α → Prop} {f : β → α} {parts : List α}
    {values : List β} (each : ∀ part value, R part value → (P part ↔ part = f value))
    (related : List.Forall₂ R parts values) : (∀ part ∈ parts, P part) ↔ parts = values.map f := by
  induction related with
  | nil => simp
  | cons here _ ih => rw [List.forall_mem_cons, List.map_cons, List.cons_eq_cons, each _ _ here, ih]

private theorem forall_mem_of_forall₂ {α β : Type} {R : α → β → Prop} {P : α → Prop} {Q : β → Prop} {parts : List α}
    {values : List β} (each : ∀ part value, R part value → P part → Q value) (related : List.Forall₂ R parts values)
    (held : ∀ part ∈ parts, P part) : ∀ value ∈ values, Q value := by
  induction related with
  | nil => simp
  | cons here _ ih =>
    obtain ⟨first, others⟩ := List.forall_mem_cons.mp held
    exact List.forall_mem_cons.mpr ⟨each _ _ here first, ih others⟩

section Opens

variable {part : ViewSection} {opened : OpenedView} {frame : RepetitionFrame} {repetition : Repetition}

theorem ViewSection.Opens.filled_iff (opens : part.Opens opened) : part.Filled ↔ part = opened.toSection := by
  obtain ⟨same, consumed, decoded⟩ := opens
  have encodable := (decodeView_prefix_iff.mp decoded).1
  constructor
  · intro filled
    have whole := filled _ _ decoded
    subst whole
    cases part
    exact ViewSection.mk.injEq _ _ _ _ ▸ ⟨(decodeView_ok_iff.mp decoded).2, same⟩
  · rintro rfl view consumed decoded'
    have written : decodeView opened.toSection.view = .ok (opened.view, opened.toSection.view.length) :=
      decodeView_ok_iff.mpr ⟨encodable, rfl⟩
    cases written.symm.trans decoded'
    rfl

theorem ViewSection.Opens.encodable (opens : part.Opens opened) (encodable : part.Encodable) :
    opened.toSection.Encodable := by
  obtain ⟨same, consumed, decoded⟩ := opens
  obtain ⟨-, -, rest, extended⟩ := decodeView_prefix_iff.mp decoded
  refine ⟨?_, (congrArg List.length same.symm).trans encodable.randomness⟩
  have small := encodable.view
  rw [extended, List.length_append] at small
  exact (Nat.le_add_right _ _).trans_lt small

theorem RepetitionFrame.Opens.filled_iff (opens : frame.Opens repetition) :
    (∀ part ∈ frame.sections, part.Filled) ↔ frame = repetition.toFrame := by
  rw [forall_mem_iff_eq_map (fun _ _ => ViewSection.Opens.filled_iff) opens.sections]
  obtain ⟨id, commitments, challenge, shares, broadcasts, -⟩ := opens
  cases frame
  simp only [Repetition.toFrame, RepetitionFrame.mk.injEq]
  exact ⟨fun same => ⟨id, commitments, challenge, same, shares, broadcasts⟩, fun same => same.2.2.2.1⟩

theorem RepetitionFrame.Opens.encodable (opens : frame.Opens repetition) (encodable : frame.Encodable) :
    repetition.toFrame.Encodable := by
  refine ⟨(congrArg List.length opens.commitments.symm).trans encodable.commitments,
    (congrArg List.length opens.hiddenOutputShares.symm).trans_lt encodable.hiddenOutputShares,
    (congrArg List.length opens.hiddenBroadcasts.symm).trans_lt encodable.hiddenBroadcasts, ?_, ?_⟩
  · rw [Repetition.toFrame, List.length_map, ← opens.sections.length_eq, encodable.sections]
  · exact List.forall_mem_map.mpr
      (forall_mem_of_forall₂ (fun _ _ here => here.encodable) opens.sections encodable.each)

end Opens

/-- An accepted byte string is the encoding of its proof exactly when its view sections are filled. -/
theorem serializeProof_eq_iff {bytes : Bytes} {proof : MpcithProof} (decoded : decodeProof bytes = .ok proof) :
    serializeProof proof = bytes ↔ ViewsFilled bytes := by
  obtain ⟨frames, read, opens⟩ := decodeProof_ok_iff.mp decoded
  obtain ⟨⟨bounded, each⟩, rfl⟩ := readFrames_ok_iff.mp read
  have filled : ViewsFilled (encodingVersion :: Reader.encodeList RepetitionFrame.encode frames) ↔
      frames = proof.repetitions.map Repetition.toFrame := by
    rw [← forall_mem_iff_eq_map (fun _ _ => RepetitionFrame.Opens.filled_iff) opens]
    constructor
    · exact fun whole => whole frames read
    · intro whole frames' read'
      cases read.symm.trans read'
      exact whole
  rw [filled, serializeProof_eq]
  constructor
  · intro same
    have canonical := readVersioned_canonical readFrame_canonical
    refine ((canonical.append_inj (s := []) (t := []) ⟨?_, ?_⟩ ⟨bounded, each⟩ ?_).1).symm
    · rwa [List.length_map, ← opens.length_eq]
    · exact List.forall_mem_map.mpr (forall_mem_of_forall₂ (fun _ _ here => here.encodable) opens each)
    · rw [same]
  · intro same
    rw [← same]

/-- A decoded proof encodes to the bytes it was decoded from exactly when no byte
follows a view within its section, and two such byte strings of one proof are equal. -/
theorem decodeProof_canonical_iff {bytes : Bytes} {proof : MpcithProof} (decoded : decodeProof bytes = .ok proof) :
    (serializeProof proof = bytes ↔ ViewsFilled bytes) ∧
      ∀ bytes', decodeProof bytes' = .ok proof → ViewsFilled bytes → ViewsFilled bytes' → bytes = bytes' := by
  refine ⟨serializeProof_eq_iff decoded, fun bytes' decoded' filled filled' => ?_⟩
  rw [← (serializeProof_eq_iff decoded).mpr filled, ← (serializeProof_eq_iff decoded').mpr filled']

/-- The view of a party in an execution without inputs and gates. -/
def idleView (party : PartyId) : PartyView := ⟨⟨0⟩, party, [], [], [], []⟩

/-- A repetition that opens the idle views of two parties. -/
def idleRepetition : Repetition where
  id := ⟨0⟩
  commitments := List.replicate 3 ⟨List.replicate 32 0, rfl⟩
  challenge := ⟨0⟩
  openedViews := [⟨idleView 1, List.replicate 32 0⟩, ⟨idleView 2, List.replicate 32 0⟩]
  hiddenOutputShares := []
  hiddenBroadcasts := []

/-- The frame of the idle repetition with bytes after its first view. -/
def paddedFrame (padding : Bytes) : RepetitionFrame :=
  { idleRepetition.toFrame with
    sections := [⟨encodeView (idleView 1) ++ padding, List.replicate 32 0⟩,
      ⟨encodeView (idleView 2), List.replicate 32 0⟩] }

/-- A proof of one repetition whose first view section ends in padding. -/
def paddedProof (padding : Bytes) : Bytes :=
  encodingVersion :: Reader.encodeList RepetitionFrame.encode [paddedFrame padding]

theorem decodeProof_padded {padding : Bytes} (short : padding.length < 256) :
    decodeProof (paddedProof padding) = .ok ⟨[idleRepetition]⟩ := by
  have few : 0 < 2 ^ 32 := Nat.two_pow_pos 32
  have idle (party : PartyId) : (idleView party).Encodable :=
    ⟨few, few, fun _ inside => (List.not_mem_nil inside).elim, few, few⟩
  have size : (encodeView (idleView 1)).length = 21 := rfl
  have size' : (encodeView (idleView 2)).length = 21 := rfl
  refine decodeProof_ok_iff.mpr ⟨[paddedFrame padding], readFrames_ok_iff.mpr ⟨⟨?_, ?_⟩, rfl⟩, ?_⟩
  · exact Nat.succ_le_of_lt (by decide : 0 < maxRepetitions)
  · refine List.forall_mem_singleton.mpr ⟨rfl, few, few, rfl, ?_⟩
    refine List.forall_mem_cons.mpr ⟨⟨?_, rfl⟩, List.forall_mem_singleton.mpr ⟨?_, rfl⟩⟩
    · rw [List.length_append, size]
      omega
    · rw [size']
      decide
  · refine .cons ⟨rfl, rfl, rfl, rfl, rfl, .cons ⟨rfl, 21, ?_⟩ (.cons ⟨rfl, 21, ?_⟩ .nil)⟩ .nil
    · exact decodeView_prefix_iff.mpr ⟨idle 1, rfl, padding, rfl⟩
    · exact decodeView_prefix_iff.mpr ⟨idle 2, rfl, [], (List.append_nil _).symm⟩

/-- A byte after the first view is lost in decoding. -/
theorem decodeProof_not_canonical :
    ¬ ∀ (bytes : Bytes) (proof : MpcithProof), decodeProof bytes = .ok proof → serializeProof proof = bytes := by
  intro canonical
  have written := canonical (paddedProof []) _ (decodeProof_padded (by decide))
  have written' := canonical (paddedProof [0]) _ (decodeProof_padded (by decide))
  have lengths : (paddedProof []).length ≠ (paddedProof [0]).length := by decide +kernel
  exact lengths (congrArg List.length (written.symm.trans written'))

/-- Without padding the proof of the idle repetition is its encoding. -/
theorem decodeProof_canonical_iff_idle :
    serializeProof ⟨[idleRepetition]⟩ = paddedProof [] ↔ ViewsFilled (paddedProof []) :=
  (decodeProof_canonical_iff (decodeProof_padded (by decide))).1

end PaymentAuth.Mpcith
