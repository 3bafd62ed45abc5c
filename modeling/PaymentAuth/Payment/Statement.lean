import PaymentAuth.Library.Failures
import PaymentAuth.Payment.Types

/-! The fixed-width encodings of amounts and of payment statements. -/

namespace PaymentAuth

open Library

inductive AmountError where
  | unknownUnit
  | invalidVersion
  | malformedEncoding
  | trailingBytes
deriving DecidableEq, Repr

inductive StatementError where
  | invalidVersion
  | malformedEncoding
  | trailingBytes
  | invalidAmount (error : AmountError)
deriving DecidableEq, Repr

/-- What a failed amount means to the decoder of statements. -/
def AmountError.toStatementError : AmountError → StatementError
  | .invalidVersion => .invalidVersion
  | .malformedEncoding => .malformedEncoding
  | .unknownUnit => .invalidAmount .unknownUnit
  | .trailingBytes => .invalidAmount .trailingBytes

def AmountUnit.fromTag (tag : UInt8) : Outcome AmountError AmountUnit :=
  if tag = 1 then .ok .cents else .error .unknownUnit

/-- Canonical encoding length of an amount. -/
def Amount.encodedLen : ℕ := 1 + 8 + 1

def Amount.decode (bytes : Bytes) : Outcome AmountError Amount := do
  Outcome.reject (bytes.length < encodedLen) .malformedEncoding
  Outcome.reject (bytes.length > encodedLen) .trailingBytes
  let version ← Outcome.expect bytes[0]?
  Outcome.reject (version ≠ amountEncodingVersion) .invalidVersion
  let value := UInt64.ofNat (fromBeBytes ((bytes.drop 1).take 8))
  let tag ← Outcome.expect bytes[9]?
  let unit ← AmountUnit.fromTag tag
  .ok ⟨value, unit⟩

/-- Current statement-encoding version. -/
def statementVersion : UInt8 := 2

namespace PaymentStatement

/-- Fixed canonical encoding length. -/
def encodedLen : ℕ := 1 + 32 + Amount.encodedLen + 32 + 32 + 32 + 1 + 32

def encode (statement : PaymentStatement) : Bytes :=
  [statementVersion] ++ statement.paymentId.bytes ++ statement.amount.encode ++ statement.recipientCommitment.bytes ++
    statement.policyId.bytes ++ statement.circuitId.bytes ++ [statement.protocolVersion] ++ statement.nonce.bytes

/-- The digest in the 32 bytes from an offset on. -/
def digestAt (bytes : Bytes) (offset : ℕ) : Outcome StatementError Digest :=
  Outcome.expect (if size : ((bytes.drop offset).take digestLen).length = digestLen then some ⟨_, size⟩ else none)

def decode (bytes : Bytes) : Outcome StatementError PaymentStatement := do
  Outcome.reject (bytes.length < encodedLen) .malformedEncoding
  Outcome.reject (bytes.length > encodedLen) .trailingBytes
  let version ← Outcome.expect bytes[0]?
  Outcome.reject (version ≠ statementVersion) .invalidVersion
  let paymentId ← digestAt bytes 1
  let amount ← (Amount.decode ((bytes.drop 33).take Amount.encodedLen)).mapError AmountError.toStatementError
  let recipientCommitment ← digestAt bytes 43
  let policyId ← digestAt bytes 75
  let circuitId ← digestAt bytes 107
  let protocolVersion ← Outcome.expect bytes[139]?
  let nonce ← digestAt bytes 140
  .ok { paymentId, amount, recipientCommitment, policyId, circuitId, protocolVersion, nonce }

end PaymentStatement

section Amounts

variable {bytes : Bytes} {amount : Amount}

/-- The bytes from an offset on are the next field and the bytes after it. -/
private theorem drop_eq_slice (bytes : Bytes) (offset width : ℕ) :
    bytes.drop offset = (bytes.drop offset).take width ++ bytes.drop (offset + width) := by
  rw [← List.drop_drop, List.take_append_drop]

/-- A byte at an offset is the slice of length one there. -/
private theorem slice_one {offset : ℕ} {byte : UInt8} (found : bytes[offset]? = some byte) :
    (bytes.drop offset).take 1 = [byte] := by
  obtain ⟨bound, rfl⟩ := List.getElem?_eq_some_iff.mp found
  rw [List.drop_eq_getElem_cons bound]
  rfl

/-- Ten bytes are an amount unless their version or their unit is unknown. -/
theorem Amount.decode_cases (size : bytes.length = encodedLen) :
    (bytes[0]? ≠ some amountEncodingVersion ∧ decode bytes = .error .invalidVersion) ∨
      (bytes[0]? = some amountEncodingVersion ∧ bytes[9]? ≠ some 1 ∧ decode bytes = .error .unknownUnit) ∨
        ∃ amount, decode bytes = .ok amount ∧ bytes = amount.encode := by
  have whole : bytes.length = 10 := size
  have first : bytes[0]? = some bytes[0] := List.getElem?_eq_getElem (by omega)
  have last : bytes[9]? = some bytes[9] := List.getElem?_eq_getElem (by omega)
  simp only [decode, Outcome.reject_of_not (Nat.not_lt.mpr size.ge), Outcome.reject_of_not (Nat.not_lt.mpr size.le),
    gt_iff_lt, Outcome.ok_bind, first, last, Outcome.expect_some, Option.some.injEq]
  by_cases version : bytes[0] = amountEncodingVersion
  · rw [Outcome.reject_of_not (not_not.mpr version), Outcome.ok_bind, AmountUnit.fromTag]
    by_cases unit : bytes[9] = 1
    · right
      right
      rw [if_pos unit, Outcome.ok_bind]
      refine ⟨_, rfl, ?_⟩
      have width : ((bytes.drop 1).take 8).length = 8 := by
        rw [List.length_take, List.length_drop]
        omega
      have small := fromBeBytes_lt ((bytes.drop 1).take 8)
      have back := toBeBytes_fromBeBytes ((bytes.drop 1).take 8)
      rw [width] at small back
      have fields : bytes = (bytes.drop 0).take 1 ++ ((bytes.drop 1).take 8 ++
          ((bytes.drop 9).take 1 ++ bytes.drop 10)) := by
        rw [← drop_eq_slice bytes 9 1, ← drop_eq_slice bytes 1 8, ← drop_eq_slice bytes 0 1, List.drop_zero]
      rw [slice_one first, slice_one last, version, unit, List.drop_eq_nil_of_le whole.le] at fields
      rw [encode, UInt64.toNat_ofNat_of_lt' small, back, AmountUnit.tag, List.append_assoc]
      exact fields
    · right
      left
      rw [if_neg unit]
      exact ⟨version, fun same => unit (Option.some.inj same), rfl⟩
  · left
    rw [Outcome.reject, if_pos version]
    exact ⟨fun same => version (Option.some.inj same), rfl⟩

/-- Every amount is read back from its encoding. -/
theorem Amount.decode_encode (amount : Amount) : decode amount.encode = .ok amount := by
  rcases decode_cases amount.encode_length with ⟨unknown, -⟩ | ⟨-, unknown, -⟩ | ⟨other, decoded, same⟩
  · exact absurd rfl unknown
  · refine absurd ?_ unknown
    rw [encode, List.getElem?_append_right (by simp)]
    simp [AmountUnit.tag]
  · rw [decoded, encode_injective same]

end Amounts

namespace PaymentStatement

variable {bytes : Bytes}

theorem encode_length (statement : PaymentStatement) : statement.encode.length = encodedLen := by
  have payment := statement.paymentId.size
  have recipient := statement.recipientCommitment.size
  have policy := statement.policyId.size
  have circuit := statement.circuitId.size
  have nonce := statement.nonce.size
  simp only [encode, List.length_append, List.length_singleton, payment, recipient, policy, circuit, nonce,
    Amount.encode_length]
  rfl

private theorem exists_digestAt {offset : ℕ} (inside : offset + digestLen ≤ bytes.length) :
    ∃ digest, digestAt bytes offset = .ok digest ∧ (bytes.drop offset).take digestLen = digest.bytes := by
  have size : ((bytes.drop offset).take digestLen).length = digestLen := by
    rw [List.length_take, List.length_drop]
    omega
  refine ⟨⟨_, size⟩, ?_, rfl⟩
  rw [digestAt, dif_pos size, Outcome.expect_some]

/-- The encoding of a statement as its eight fields in order. -/
private theorem eq_fields (size : bytes.length = encodedLen) :
    bytes = (bytes.drop 0).take 1 ++ ((bytes.drop 1).take 32 ++ ((bytes.drop 33).take 10 ++ ((bytes.drop 43).take 32 ++
      ((bytes.drop 75).take 32 ++ ((bytes.drop 107).take 32 ++ ((bytes.drop 139).take 1 ++
        (bytes.drop 140).take 32)))))) := by
  have whole : bytes.length = 172 := size
  have ended : (bytes.drop 140).take 32 = bytes.drop 140 := by
    apply List.take_of_length_le
    rw [List.length_drop]
    omega
  rw [ended, ← drop_eq_slice bytes 139 1, ← drop_eq_slice bytes 107 32, ← drop_eq_slice bytes 75 32,
    ← drop_eq_slice bytes 43 32, ← drop_eq_slice bytes 33 10, ← drop_eq_slice bytes 1 32, ← drop_eq_slice bytes 0 1,
    List.drop_zero]

/-- Bytes of the right number are a statement unless a version or the unit is unknown. -/
private theorem decode_sized (size : bytes.length = encodedLen) :
    ((bytes[0]? ≠ some statementVersion ∨ bytes[33]? ≠ some amountEncodingVersion) ∧
        decode bytes = .error .invalidVersion) ∨
      (bytes[0]? = some statementVersion ∧ bytes[33]? = some amountEncodingVersion ∧ bytes[42]? ≠ some 1 ∧
        decode bytes = .error (.invalidAmount .unknownUnit)) ∨
          ∃ statement, decode bytes = .ok statement ∧ bytes = statement.encode := by
  have whole : bytes.length = 172 := size
  have first : bytes[0]? = some bytes[0] := List.getElem?_eq_getElem (by omega)
  have stamp : bytes[139]? = some bytes[139] := List.getElem?_eq_getElem (by omega)
  obtain ⟨paymentId, payment, paymentSlice⟩ := @exists_digestAt bytes 1 (by rw [whole]; decide)
  obtain ⟨recipientCommitment, recipient, recipientSlice⟩ := @exists_digestAt bytes 43 (by rw [whole]; decide)
  obtain ⟨policyId, policy, policySlice⟩ := @exists_digestAt bytes 75 (by rw [whole]; decide)
  obtain ⟨circuitId, circuit, circuitSlice⟩ := @exists_digestAt bytes 107 (by rw [whole]; decide)
  obtain ⟨nonce, replay, nonceSlice⟩ := @exists_digestAt bytes 140 (by rw [whole]; decide)
  simp only [decode, Outcome.reject_of_not (Nat.not_lt.mpr size.ge), Outcome.reject_of_not (Nat.not_lt.mpr size.le),
    gt_iff_lt, Outcome.ok_bind, first, Outcome.expect_some, payment, recipient, policy, circuit, stamp, replay]
  by_cases version : bytes[0] = statementVersion
  · rw [Outcome.reject_of_not (not_not.mpr version), Outcome.ok_bind]
    have amountSize : ((bytes.drop 33).take Amount.encodedLen).length = Amount.encodedLen := by
      rw [List.length_take, List.length_drop, whole]
      rfl
    have inner {k : ℕ} (bound : k < Amount.encodedLen) :
        ((bytes.drop 33).take Amount.encodedLen)[k]? = bytes[33 + k]? := by
      rw [List.getElem?_take_of_lt bound, List.getElem?_drop]
    rcases Amount.decode_cases amountSize with ⟨unknown, failed⟩ | ⟨known, unknown, failed⟩ | ⟨amount, decoded, same⟩
    · left
      rw [inner (by decide)] at unknown
      rw [failed]
      exact ⟨Or.inr unknown, rfl⟩
    · right
      left
      rw [inner (by decide)] at known unknown
      rw [failed]
      exact ⟨congrArg some version, known, unknown, rfl⟩
    · right
      right
      rw [decoded, Outcome.mapError_ok, Outcome.ok_bind]
      refine ⟨_, rfl, ?_⟩
      have fields := eq_fields size
      rw [slice_one first, slice_one stamp, version] at fields
      simp only [digestLen] at paymentSlice recipientSlice policySlice circuitSlice nonceSlice
      simp only [Amount.encodedLen, Nat.reduceAdd] at same
      rw [paymentSlice, recipientSlice, policySlice, circuitSlice, nonceSlice, same] at fields
      simp only [encode, List.append_assoc]
      exact fields
  · left
    rw [Outcome.reject, if_pos version]
    exact ⟨Or.inl fun same => version (Option.some.inj same), rfl⟩

/-- Statements with equal encodings are equal. -/
theorem encode_injective {left right : PaymentStatement} (same : left.encode = right.encode) : left = right := by
  simp only [encode, List.append_assoc] at same
  obtain ⟨-, same⟩ := List.append_inj same rfl
  obtain ⟨payments, same⟩ := List.append_inj same (left.paymentId.size.trans right.paymentId.size.symm)
  obtain ⟨amounts, same⟩ := List.append_inj same (left.amount.encode_length.trans right.amount.encode_length.symm)
  obtain ⟨recipients, same⟩ :=
    List.append_inj same (left.recipientCommitment.size.trans right.recipientCommitment.size.symm)
  obtain ⟨policies, same⟩ := List.append_inj same (left.policyId.size.trans right.policyId.size.symm)
  obtain ⟨circuits, same⟩ := List.append_inj same (left.circuitId.size.trans right.circuitId.size.symm)
  obtain ⟨versions, nonces⟩ := List.append_inj same rfl
  cases left
  cases right
  simp only [PaymentStatement.mk.injEq, Digest.ext_iff]
  exact ⟨payments, Amount.encode_injective amounts, recipients, policies, circuits, List.singleton_inj.mp versions,
    nonces⟩

/-- Every statement is read back from its encoding. -/
private theorem decode_encode (statement : PaymentStatement) : decode statement.encode = .ok statement := by
  have front : ([statementVersion] ++ statement.paymentId.bytes).length = 33 := by
    rw [List.length_append, statement.paymentId.size]
    rfl
  have fields : statement.encode = ([statementVersion] ++ statement.paymentId.bytes) ++ (statement.amount.encode ++
      (statement.recipientCommitment.bytes ++ statement.policyId.bytes ++ statement.circuitId.bytes ++
        [statement.protocolVersion] ++ statement.nonce.bytes)) := by
    simp only [encode, List.append_assoc]
  have amount (k : ℕ) (bound : k < 10) : statement.encode[33 + k]? = statement.amount.encode[k]? := by
    rw [fields, List.getElem?_append_right (by rw [front]; exact Nat.le_add_right 33 k), front, Nat.add_sub_cancel_left,
      List.getElem?_append_left (by rw [Amount.encode_length]; exact bound)]
  have unit : statement.amount.encode[9]? = some 1 := by
    rw [Amount.encode, List.getElem?_append_right (by simp)]
    simp [AmountUnit.tag]
  rcases decode_sized statement.encode_length with ⟨unknown | unknown, -⟩ | ⟨-, -, unknown, -⟩ | ⟨other, decoded, same⟩
  · exact absurd rfl unknown
  · exact absurd (amount 0 (by decide)) unknown
  · exact absurd ((amount 9 (by decide)).trans unit) unknown
  · rw [decoded, encode_injective same]

/-- Decoding reads the encodings back and nothing else, never panics, and names the first
rule that other bytes break: their number, a version, or the unit of the amount. -/
theorem decode_classifies :
    (∀ statement : PaymentStatement, decode statement.encode = .ok statement) ∧ ∀ bytes : Bytes,
      (bytes.length < encodedLen ∧ decode bytes = .error .malformedEncoding) ∨
      (encodedLen < bytes.length ∧ decode bytes = .error .trailingBytes) ∨
      (bytes.length = encodedLen ∧ (bytes[0]? ≠ some statementVersion ∨ bytes[33]? ≠ some amountEncodingVersion) ∧
        decode bytes = .error .invalidVersion) ∨
      (bytes.length = encodedLen ∧ bytes[0]? = some statementVersion ∧ bytes[33]? = some amountEncodingVersion ∧
        bytes[42]? ≠ some 1 ∧ decode bytes = .error (.invalidAmount .unknownUnit)) ∨
      ∃ statement, decode bytes = .ok statement ∧ bytes = statement.encode := by
  refine ⟨decode_encode, ?_⟩
  intro bytes
  rcases Nat.lt_trichotomy bytes.length encodedLen with short | size | long
  · left
    rw [decode, Outcome.reject, if_pos short]
    exact ⟨short, rfl⟩
  · right
    right
    rcases decode_sized size with ⟨unknown, failed⟩ | ⟨known, inner, unknown, failed⟩ | decoded
    · exact Or.inl ⟨size, unknown, failed⟩
    · exact Or.inr (Or.inl ⟨size, known, inner, unknown, failed⟩)
    · exact Or.inr (Or.inr decoded)
  · right
    left
    rw [decode, Outcome.reject_of_not (Nat.not_lt.mpr long.le), Outcome.ok_bind, Outcome.reject, if_pos long]
    exact ⟨long, rfl⟩

end PaymentStatement

end PaymentAuth
