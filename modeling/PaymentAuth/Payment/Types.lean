import PaymentAuth.Circuit.Encoding
import PaymentAuth.Policy.Identity

namespace PaymentAuth

open Library

inductive PaymentError where
  | invalidPolicy
  | policyIdMismatch
  | witnessCountMismatch
  | malformedCredentialSecret
  | credentialCommitmentMismatch
  | thresholdNotMet
  | amountExceedsLimit
  | amountMismatch
  | invalidBitWitness
  | policyNotSatisfied
  | proofGenerationFailed
  | proofRejected
  | statementMismatch
deriving DecidableEq, Repr

/-- The integer unit an amount is denominated in. -/
inductive AmountUnit where
  | cents
deriving DecidableEq, Repr

def AmountUnit.tag : AmountUnit → UInt8
  | .cents => 1

/-- An exact payment amount. -/
structure Amount where
  value : UInt64
  unit : AmountUnit
deriving DecidableEq

def amountEncodingVersion : UInt8 := 1

/-- The version, the big-endian value and the unit. -/
def Amount.encode (amount : Amount) : Bytes :=
  [amountEncodingVersion] ++ toBeBytes 8 amount.value.toNat ++ [amount.unit.tag]

/-- Domain separator for semantic payment ids. -/
def paymentIdDomain : Bytes := ascii "private-payment-auth/payment/v1"

/-- Current payment-object encoding version. -/
def paymentEncodingVersion : UInt8 := 1

/-- A payment record with a fresh nonce. -/
structure Payment where
  version : UInt8
  paymentId : Bytes32
  amount : Amount
  recipientCommitment : Digest
  nonce : Bytes32
deriving DecidableEq

def Payment.encode (payment : Payment) : Bytes :=
  [payment.version] ++ payment.paymentId.bytes ++ payment.amount.encode ++ payment.recipientCommitment.bytes ++
    payment.nonce.bytes

/-- `Payment::payment_id`: the hash of the canonical encoding. -/
def Payment.semanticId (sha256 : Bytes → Digest) (payment : Payment) : Digest :=
  sha256HashDomain sha256 paymentIdDomain payment.encode

/-- Public description of the payment being authorized. -/
structure PaymentStatement where
  paymentId : Digest
  amount : Amount
  recipientCommitment : Digest
  policyId : PolicyId
  circuitId : CircuitId
  protocolVersion : UInt8
  nonce : Bytes32
deriving DecidableEq

theorem AmountUnit.eq (left right : AmountUnit) : left = right := by
  cases left
  cases right
  rfl

theorem Amount.ext_value {left right : Amount} (same : left.value = right.value) : left = right := by
  cases left
  cases right
  cases same
  exact congrArg _ (AmountUnit.eq _ _)

theorem Amount.encode_length (amount : Amount) : amount.encode.length = 10 := by
  simp [encode]

theorem Amount.encode_injective {left right : Amount} (same : left.encode = right.encode) : left = right := by
  simp only [encode, List.append_assoc, List.append_cancel_left_eq] at same
  obtain ⟨values, -⟩ := List.append_inj same (by simp)
  have wide (amount : Amount) : amount.value.toNat < 256 ^ 8 := amount.value.toNat_lt
  exact Amount.ext_value (UInt64.toNat_inj.mp (toBeBytes_injective (wide left) (wide right) values))

/-- Payments with equal encodings are equal. -/
theorem Payment.encode_injective {left right : Payment} (same : left.encode = right.encode) : left = right := by
  simp only [encode, List.append_assoc] at same
  obtain ⟨versions, same⟩ := List.append_inj same rfl
  obtain ⟨ids, same⟩ := List.append_inj same (left.paymentId.size.trans right.paymentId.size.symm)
  obtain ⟨amounts, same⟩ := List.append_inj same (left.amount.encode_length.trans right.amount.encode_length.symm)
  obtain ⟨recipients, nonces⟩ :=
    List.append_inj same (left.recipientCommitment.size.trans right.recipientCommitment.size.symm)
  cases left
  cases right
  simp only [Payment.mk.injEq, Digest.ext_iff]
  exact ⟨List.singleton_inj.mp versions, ids, Amount.encode_injective amounts, recipients, nonces⟩

end PaymentAuth
