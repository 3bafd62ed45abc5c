import PaymentAuth.Proof.Reception

/-! What each error of the proof decoder says of the bytes. -/

namespace PaymentAuth

open Library Mpcith

section Fields

variable {ε : Type} (malformed : ε)

theorem readElement_failsOnly : Emission.FailsOnly (· = malformed) (readElement malformed) := by
  apply Emission.FailsOnly.bind (Reader.readBytes_failsOnly malformed 32)
  intro raw
  apply Emission.FailsOnly.liftM
  apply Outcome.FailsOnly.okOr
  rfl

theorem Mpcith.readPartyId_failsOnly : Emission.FailsOnly (· = malformed) (readPartyId malformed) := by
  apply Emission.FailsOnly.bind (Reader.readU8_failsOnly malformed)
  intro value
  apply Emission.FailsOnly.liftM
  apply Outcome.FailsOnly.mapError
  · unfold PartyId.new
    split
    · exact Outcome.ok_ne_aborted _
    · exact Outcome.error_ne_aborted _
  · intro _ _
    rfl

end Fields

namespace Proof

section Parts

theorem decodeOpening_failsOnly : Emission.FailsOnly (· = ProofError.malformedEncoding) decodeOpening := by
  apply (Reader.readU32_failsOnly _).bind
  intro len
  apply Emission.FailsOnly.bind (Reader.readBytes_failsOnly _ len.toNat)
  intro viewBytes
  apply Emission.FailsOnly.bind
  · exact Emission.FailsOnly.liftM (Outcome.FailsOnly.mapError (decodeView_ne_aborted viewBytes) fun _ _ => rfl)
  intro decoded
  apply Emission.FailsOnly.bind
  · exact Emission.FailsOnly.reject rfl
  intro _
  exact Emission.FailsOnly.bind (Reader.readBytes_failsOnly _ randomnessLen) fun _ => Emission.FailsOnly.pure _

theorem decodeRepetition_failsOnly : Emission.FailsOnly (· = ProofError.malformedEncoding) decodeRepetition := by
  have readValues := Reader.readList_failsOnly _ (readElement_failsOnly ProofError.malformedEncoding)
  apply (Reader.readMany_failsOnly (readDigest_failsOnly _) 3).bind
  intro _
  apply (readPartyId_failsOnly _).bind
  intro _
  apply readValues.bind
  intro _
  apply readValues.bind
  intro _
  apply (Reader.readU32_failsOnly _).bind
  intro opened
  apply Emission.FailsOnly.bind
  · exact Emission.FailsOnly.reject rfl
  intro _
  exact (Reader.readMany_failsOnly decodeOpening_failsOnly opened.toNat).bind fun _ => Emission.FailsOnly.pure _

end Parts

/-- The first two bytes of a proof and its backend id. -/
def header (id : BackendId) : Bytes := [encodingVersion, protocolId] ++ id.bytes

/-- Beginnings that the decoder refuses for what they say, with the error it names. -/
inductive Refused : Bytes → ProofError → Prop
  | version {version : UInt8} (rest : Bytes) (unknown : version ≠ encodingVersion) :
      Refused (version :: rest) .invalidVersion
  | protocol {protocol : UInt8} (rest : Bytes) (unknown : protocol ≠ protocolId) :
      Refused (encodingVersion :: protocol :: rest) .invalidVersion
  | backend {id : BackendId} (rest : Bytes) (unknown : id ∉ supportedBackendIds) :
      Refused (header id ++ rest) .unsupportedBackend
  | statement {id : BackendId} {version : UInt8} (rest : Bytes) (supported : id ∈ supportedBackendIds)
      (unknown : version ≠ statementVersion) : Refused (header id ++ version :: rest) .invalidVersion
  | repetitions {id : BackendId} {statement : Statement} {count : UInt32} (rest : Bytes)
      (supported : id ∈ supportedBackendIds) (encodable : statement.Encodable)
      (many : maxProofRepetitions < count.toNat) :
      Refused (header id ++ (statement.encode ++ (toBeBytes 4 count.toNat ++ rest))) .excessiveRepetitions

section Decoding

variable {bytes rest : Bytes} {failure : ProofError}

/-- A byte is read off the front. -/
private theorem readU8_cons (byte : UInt8) (rest : Bytes) :
    Reader.readU8 ProofError.malformedEncoding (byte :: rest) = .ok (byte, rest) :=
  (Reader.readU8_canonical ProofError.malformedEncoding).read_encode byte trivial rest

private theorem readBackendId_append (id : BackendId) (rest : Bytes) :
    readBackendId ProofError.malformedEncoding (id.bytes ++ rest) = .ok (id, rest) :=
  (readBackendId_canonical ProofError.malformedEncoding).read_encode id trivial rest

/-- The decoder after a header whose backend is supported. -/
private theorem decodeProof_header {id : BackendId} (supported : id ∈ supportedBackendIds) (rest : Bytes) :
    decodeProof (header id ++ rest) = (do
      let statement ← Statement.decodePrefix
      let repetitions ← decodeRepetitions
      return ⟨encodingVersion, protocolId, id, statement, repetitions⟩ :
        Reader ProofError NonInteractiveProof) rest := by
  rw [header, List.append_assoc, List.cons_append, List.cons_append, List.nil_append, decodeProof,
    Emission.bind_of_ok (readU8_cons _ _), Emission.reject_bind, Outcome.reject_of_not (not_not.mpr rfl),
    Outcome.ok_bind, Emission.bind_of_ok (readU8_cons _ _), Emission.reject_bind,
    Outcome.reject_of_not (not_not.mpr rfl), Outcome.ok_bind, Emission.bind_of_ok (readBackendId_append _ _),
    Emission.reject_bind, Outcome.reject_of_not (not_not.mpr supported), Outcome.ok_bind]

private theorem decodePrefix_foreign {version : UInt8} (unknown : version ≠ statementVersion) (rest : Bytes) :
    Statement.decodePrefix (version :: rest) = .error .invalidVersion := by
  rw [Statement.decodePrefix, Emission.bind_of_ok (readU8_cons _ _)]
  exact Emission.reject_bind_of unknown _ _ _

private theorem decodeRepetitions_excessive {count : UInt32} (many : maxProofRepetitions < count.toNat) (rest : Bytes) :
    decodeRepetitions (toBeBytes 4 count.toNat ++ rest) = .error .excessiveRepetitions := by
  have read := (Reader.readU32_canonical ProofError.malformedEncoding).read_encode count trivial rest
  rw [decodeRepetitions, Emission.bind_of_ok read]
  exact Emission.reject_bind_of many _ _ _

/-- Such beginnings are refused whatever follows them. -/
theorem Refused.decodeProof_eq (refused : Refused bytes failure) : decodeProof bytes = .error failure := by
  cases refused with
  | version rest unknown =>
    rw [decodeProof, Emission.bind_of_ok (readU8_cons _ _)]
    exact Emission.reject_bind_of unknown _ _ _
  | protocol rest unknown =>
    rw [decodeProof, Emission.bind_of_ok (readU8_cons _ _), Emission.reject_bind,
      Outcome.reject_of_not (not_not.mpr rfl), Outcome.ok_bind, Emission.bind_of_ok (readU8_cons _ _)]
    exact Emission.reject_bind_of unknown _ _ _
  | backend rest unknown =>
    rw [header, List.append_assoc, List.cons_append, List.cons_append, List.nil_append, decodeProof,
      Emission.bind_of_ok (readU8_cons _ _), Emission.reject_bind, Outcome.reject_of_not (not_not.mpr rfl),
      Outcome.ok_bind, Emission.bind_of_ok (readU8_cons _ _), Emission.reject_bind,
      Outcome.reject_of_not (not_not.mpr rfl), Outcome.ok_bind, Emission.bind_of_ok (readBackendId_append _ _)]
    exact Emission.reject_bind_of unknown _ _ _
  | statement rest supported unknown =>
    rw [decodeProof_header supported]
    exact Emission.bind_of_error (decodePrefix_foreign unknown rest)
  | repetitions rest supported encodable many =>
    rw [decodeProof_header supported, Emission.bind_of_ok (Statement.decodePrefix_canonical.read_encode _ encodable _)]
    exact Emission.bind_of_error (decodeRepetitions_excessive many rest)

/-- A statement is read off the front, or its version is unknown, or the bytes are malformed. -/
private theorem decodePrefix_cases (bytes : Bytes) :
    (∃ statement rest, Statement.Encodable statement ∧ bytes = statement.encode ++ rest) ∨
      (∃ version rest, version ≠ statementVersion ∧ bytes = version :: rest) ∨
        Statement.decodePrefix bytes = .error .malformedEncoding := by
  rcases (Reader.readU8_canonical ProofError.malformedEncoding).reads_or_refuses (Reader.readU8_failsOnly _) bytes with
    ⟨version, rest, -, rfl, read⟩ | ⟨_, rfl, refused⟩
  · by_cases known : version = statementVersion
    · have readValues := Reader.readList_failsOnly _ (readElement_failsOnly ProofError.malformedEncoding)
      have fails : Outcome.FailsOnly (· = ProofError.malformedEncoding)
          (Statement.decodePrefix ([version] ++ rest)) := by
        rw [Statement.decodePrefix, Emission.bind_of_ok read, Emission.reject_bind,
          Outcome.reject_of_not (not_not.mpr known), Outcome.ok_bind]
        have values := Emission.FailsOnly.bind (readDigest_failsOnly ProofError.malformedEncoding) fun circuitId =>
          readValues.bind fun publicInputs => readValues.bind fun expectedOutputs =>
            Emission.FailsOnly.pure (Statement.mk circuitId publicInputs expectedOutputs)
        exact values rest
      cases result : Statement.decodePrefix ([version] ++ rest) with
      | ok pair =>
        obtain ⟨encodable, front⟩ := (Statement.decodePrefix_canonical _ _ _).mp result
        exact .inl ⟨pair.1, pair.2, encodable, front⟩
      | error failure => exact .inr (.inr (congrArg Outcome.error (fails.errors failure result)))
      | aborted => exact absurd result fails.returns
    · exact .inr (.inl ⟨version, rest, known, rfl⟩)
  · exact .inr (.inr (Emission.bind_of_error refused))

/-- A statement is decoded from its encoding only. -/
theorem Statement.decode_ok_iff {bytes : Bytes} {statement : Statement} :
    Statement.decode bytes = .ok statement ↔ statement.Encodable ∧ bytes = statement.encode := by
  simp only [Statement.decode, Outcome.bind_ok_iff, Prod.exists, Statement.decodePrefix_canonical _ _ _,
    Outcome.reject_ok_iff, exists_const, not_not, Outcome.ok.injEq]
  constructor
  · rintro ⟨_, _, ⟨encodable, rfl⟩, rfl, rfl⟩
    exact ⟨encodable, List.append_nil _⟩
  · rintro ⟨encodable, rfl⟩
    exact ⟨statement, [], ⟨encodable, (List.append_nil _).symm⟩, rfl, rfl⟩

/-- The repetitions are read, or there are too many of them, or the bytes are malformed. -/
private theorem decodeRepetitions_cases (bytes : Bytes) :
    (∃ repetitions rest, decodeRepetitions bytes = .ok (repetitions, rest)) ∨
      (∃ (count : UInt32) (rest : Bytes), maxProofRepetitions < count.toNat ∧
        bytes = toBeBytes 4 count.toNat ++ rest) ∨
        decodeRepetitions bytes = .error .malformedEncoding := by
  rcases (Reader.readU32_canonical ProofError.malformedEncoding).reads_or_refuses (Reader.readU32_failsOnly _) bytes
    with ⟨count, rest, -, rfl, read⟩ | ⟨_, rfl, refused⟩
  · by_cases many : maxProofRepetitions < count.toNat
    · exact .inr (.inl ⟨count, rest, many, rfl⟩)
    · have next := Reader.readMany_failsOnly decodeRepetition_failsOnly count.toNat rest
      have whole : decodeRepetitions (toBeBytes 4 count.toNat ++ rest) =
          Reader.readMany decodeRepetition count.toNat rest := by
        rw [decodeRepetitions, Emission.bind_of_ok read, Emission.reject_bind, Outcome.reject_of_not many,
          Outcome.ok_bind]
      rw [← whole] at next
      cases result : decodeRepetitions (toBeBytes 4 count.toNat ++ rest) with
      | ok pair => exact .inl ⟨pair.1, pair.2, rfl⟩
      | error failure => exact .inr (.inr (congrArg Outcome.error (next.errors failure result)))
      | aborted => exact absurd result next.returns
  · exact .inr (.inr (Emission.bind_of_error refused))

/-- A supported header is read off the front, or the bytes are refused, or they are malformed. -/
private theorem header_cases (bytes : Bytes) :
    (∃ id ∈ supportedBackendIds, ∃ rest, bytes = header id ++ rest) ∨
      (∃ failure, Refused bytes failure) ∨ decodeProof bytes = .error .malformedEncoding := by
  have readByte (input : Bytes) := (Reader.readU8_canonical ProofError.malformedEncoding).reads_or_refuses
    (Reader.readU8_failsOnly _) input
  rcases readByte bytes with ⟨version, rest, -, rfl, read⟩ | ⟨_, rfl, refused⟩
  · by_cases versioned : version = encodingVersion
    · subst versioned
      rcases readByte rest with ⟨protocol, rest, -, rfl, read'⟩ | ⟨_, rfl, refused⟩
      · by_cases known : protocol = protocolId
        · subst known
          rcases (readBackendId_canonical ProofError.malformedEncoding).reads_or_refuses (readBackendId_failsOnly _)
            rest with ⟨id, rest, -, rfl, -⟩ | ⟨_, rfl, refused⟩
          · have split : [encodingVersion] ++ ([protocolId] ++ (id.bytes ++ rest)) = header id ++ rest :=
              (List.append_assoc _ _ _).symm
            rw [split]
            by_cases supported : id ∈ supportedBackendIds
            · exact .inl ⟨id, supported, rest, rfl⟩
            · exact .inr (.inl ⟨_, .backend rest supported⟩)
          · refine .inr (.inr ?_)
            rw [decodeProof, Emission.bind_of_ok read, Emission.reject_bind, Outcome.reject_of_not (not_not.mpr rfl),
              Outcome.ok_bind, Emission.bind_of_ok read', Emission.reject_bind,
              Outcome.reject_of_not (not_not.mpr rfl), Outcome.ok_bind]
            exact Emission.bind_of_error refused
        · exact .inr (.inl ⟨_, .protocol rest known⟩)
      · refine .inr (.inr ?_)
        rw [decodeProof, Emission.bind_of_ok read, Emission.reject_bind, Outcome.reject_of_not (not_not.mpr rfl),
          Outcome.ok_bind]
        exact Emission.bind_of_error refused
    · exact .inr (.inl ⟨_, .version rest versioned⟩)
  · exact .inr (.inr (Emission.bind_of_error refused))

/-- Every byte string starts with a proof, is refused for what it says, or is malformed. -/
theorem decodeProof_cases (bytes : Bytes) :
    (∃ proof rest, decodeProof bytes = .ok (proof, rest)) ∨ (∃ failure, Refused bytes failure) ∨
      decodeProof bytes = .error .malformedEncoding := by
  rcases header_cases bytes with ⟨id, supported, rest, rfl⟩ | refused | malformed
  · rw [decodeProof_header supported]
    rcases decodePrefix_cases rest with ⟨statement, rest, encodable, rfl⟩ | ⟨version, rest, unknown, rfl⟩ | malformed
    · rw [Emission.bind_of_ok (Statement.decodePrefix_canonical.read_encode _ encodable _)]
      rcases decodeRepetitions_cases rest with ⟨repetitions, rest, read⟩ | ⟨count, rest, many, rfl⟩ | malformed
      · rw [Emission.bind_of_ok read]
        exact .inl ⟨_, _, rfl⟩
      · exact .inr (.inl ⟨_, .repetitions rest supported encodable many⟩)
      · exact .inr (.inr (Emission.bind_of_error malformed))
    · exact .inr (.inl ⟨_, .statement rest supported unknown⟩)
    · exact .inr (.inr (Emission.bind_of_error malformed))
  · exact .inr (.inl refused)
  · exact .inr (.inr malformed)

/-- The decoder of proofs answers every byte string: it returns the proofs in its shape from
their encodings, names the three other errors exactly for the beginnings that call for them, and
finds everything else malformed. -/
theorem deserializeProof_classifies (bytes : Bytes) :
    (∀ proof, deserializeProof bytes = .ok proof ↔ proof.Encodable ∧ bytes = serializeProof proof) ∧
      (∀ failure ≠ .malformedEncoding, deserializeProof bytes = .error failure ↔ Refused bytes failure) ∧
      (deserializeProof bytes = .error .malformedEncoding ↔
        (∀ proof : NonInteractiveProof, proof.Encodable → bytes ≠ serializeProof proof) ∧
          ∀ failure, ¬Refused bytes failure) := by
  have refuses {failure : ProofError} (refused : Refused bytes failure) : deserializeProof bytes = .error failure := by
    rw [deserializeProof, refused.decodeProof_eq, Outcome.error_bind]
  have specific {failure : ProofError} (refused : Refused bytes failure) : failure ≠ .malformedEncoding := by
    cases refused <;> decide
  have answers : (∃ proof, deserializeProof bytes = .ok proof) ∨ (∃ failure, Refused bytes failure) ∨
      deserializeProof bytes = .error .malformedEncoding := by
    rcases decodeProof_cases bytes with ⟨proof, rest, read⟩ | refused | malformed
    · have left : deserializeProof bytes = (do
          Outcome.reject (rest ≠ []) ProofError.malformedEncoding
          .ok proof) := by
        rw [deserializeProof, read]
        rfl
      rw [left]
      rcases Outcome.reject_cases (rest ≠ []) ProofError.malformedEncoding with passed | failed
      · rw [passed]
        exact .inl ⟨proof, rfl⟩
      · rw [failed]
        exact .inr (.inr rfl)
    · exact .inr (.inl refused)
    · refine .inr (.inr ?_)
      rw [deserializeProof, malformed, Outcome.error_bind]
  refine ⟨fun proof => deserializeProof_ok_iff, fun failure named => ⟨fun fails => ?_, refuses⟩,
    ⟨fun fails => ⟨?_, ?_⟩, ?_⟩⟩
  · rcases answers with ⟨proof, returned⟩ | ⟨other, refused⟩ | malformed
    · rw [returned] at fails
      cases fails
    · rw [refuses refused] at fails
      cases fails
      exact refused
    · rw [malformed] at fails
      cases fails
      exact absurd rfl named
  · intro proof encodable same
    rw [deserializeProof_ok_iff.mpr ⟨encodable, same⟩] at fails
    cases fails
  · intro failure refused
    rw [refuses refused] at fails
    cases fails
    exact specific refused rfl
  · rintro ⟨unencoded, unrefused⟩
    rcases answers with ⟨proof, returned⟩ | ⟨failure, refused⟩ | malformed
    · obtain ⟨encodable, same⟩ := deserializeProof_ok_iff.mp returned
      exact absurd same (unencoded proof encodable)
    · exact absurd refused (unrefused failure)
    · exact malformed

end Decoding

end Proof

end PaymentAuth
